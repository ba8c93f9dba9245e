import Tundra.Queue.Sched

/-!
# The invariant of the build

`Inv` puts together where the nodes are, how the pass proceeds, who holds the lock, and what the main thread
knows at each place of `DriverBuild`. Every step of the abstract machine keeps it.
-/

namespace Tundra.Spec

/-- What is known after `p` passes when `DriverBuild` has `r` in its hands. -/
structure Outcome (tbl : NodeTable) (cfg : Config) (a : State) (p : Nat) (r : BuildResult) : Prop where
  pass : ∀ q, a.currentPassIndex = some q ↔ q + 1 = p
  ok : r = .ok → a.signalSeen = none ∧ (∀ t i, ¬ a.Held t i) ∧
    ∀ i < tbl.maxNodes, tbl.pass i < p → a.Completed i ∧ (a.nodes i).buildResult = 0
  interrupted : r = .interrupted → a.signalSeen ≠ none
  buildError : r = .buildError → 0 < a.failedNodeCount ∧ (cfg.continueOnError = true → a.pendingNodeCount ≤ 0)
  setupError : r ≠ .setupError

/-- The main thread has left `BuildLoop`, and why. -/
def Stopped (cfg : Config) (a : State) : Prop :=
  (0 < a.failedNodeCount ∧ cfg.continueOnError = false) ∨ a.pendingNodeCount ≤ 0

/-- What the main thread's place says about the rest of the state. -/
def DriverOk (tbl : NodeTable) (cfg : Config) (a : State) : DriverPc → Prop
  | .passLoop p r => a.thread 0 = .exited ∧ a.quitSignalled = false ∧ Outcome tbl cfg a p r
  | .wake p => a.thread 0 = .exited ∧ a.quitSignalled = false ∧ a.currentPassIndex = some p
  | .loop p => a.quitSignalled = false ∧ a.currentPassIndex = some p ∧
      (a.thread 0 = .exited → a.signalReason ≠ none ∨ Stopped cfg a)
  | .readFailed p => a.thread 0 = .exited ∧ a.quitSignalled = false ∧ a.currentPassIndex = some p ∧
      a.signalSeen = none ∧ Stopped cfg a
  | .destroy r =>
      a.thread 0 = .exited ∧ a.quitSignalled = false ∧ ∃ p, Outcome tbl cfg a p r ∧ ¬ (r = .ok ∧ p < tbl.passCount)
  | .destroyWake r | .join r => a.thread 0 = .exited ∧ ∃ p, Outcome tbl cfg a p r ∧ ¬ (r = .ok ∧ p < tbl.passCount)
  | .done r => (∀ t, a.thread t = .exited) ∧ ∃ p, Outcome tbl cfg a p r ∧ ¬ (r = .ok ∧ p < tbl.passCount)

structure Inv (tbl : NodeTable) (cfg : Config) (a : State) : Prop where
  node : NodeInv tbl cfg a
  sched : Sched tbl a
  lock : ∀ t, (a.thread t).holdsLock = true ↔ a.lock = some t
  signal : a.signalSeen ≠ none → a.signalReason ≠ none
  driver : DriverOk tbl cfg a a.driver

variable {tbl : NodeTable} {cfg : Config} {a a' : State} {i j t u p : Nat} {c : Choice} {es : List Event}

/-! ### The steps of a thread and the schedule -/

theorem NodeInv.touched (h : NodeInv tbl cfg a) (hheld : a.Held t i) : ¬ a.Untouched i := by
  simp [State.Untouched, (h.held_flags hheld).2]

theorem held_advance (hpc : a.thread t = .advance i) : a.Held t i := by
  rw [State.Held, hpc]
  rfl

/-- A node in the hands of a thread, past `kInitial`, has its dependencies completed. -/
theorem Sched.ready_held (h : Sched tbl a) (hinv : NodeInv tbl cfg a) (hheld : a.Held t i)
    (hprogress : (a.nodes i).progress ≠ .initial) : a.Ready tbl i :=
  h.ready i (hinv.held_lt t i hheld) hprogress fun _ => .inr (hinv.held_flags hheld).2

/-- The thread that holds a node which is not completed goes on with it. -/
theorem Sched.hold (h : Sched tbl a) (hinv : NodeInv tbl cfg a) (hheld : a.Held t i) (hheld' : a'.Held t i)
    (hopen : ¬ a.Completed i) (hnodes : ∀ j, j ≠ i → a'.nodes j = a.nodes j) (hactive : (a'.nodes i).active = true)
    (hpass : a'.currentPassIndex = a.currentPassIndex) (hpending : a'.pendingNodeCount = a.pendingNodeCount)
    (hfailed : a'.failedNodeCount = a.failedNodeCount ∧ (¬ a'.Completed i ∨ (a'.nodes i).buildResult = 0) ∨
      a'.failedNodeCount = a.failedNodeCount + 1 ∧ a'.Completed i ∧ (a'.nodes i).buildResult ≠ 0)
    (hthread : ∀ u, u ≠ t → a'.thread u = a.thread u)
    (hready : (a'.nodes i).progress ≠ .initial → a.Ready tbl i)
    (hdone : a'.Completed i → a'.thread t = .advance i)
    (hresult : ¬ a'.Completed i → (a'.nodes i).buildResult = 0) : Sched tbl a' := by
  refine h.change (hinv.held_lt t i hheld) (hinv.touched hheld) hopen hnodes hpass hpending hfailed ?_ ?_
    (fun hp _ => hready hp)
    ?_ ?_ (fun hc => ⟨t, hdone hc⟩) hresult
  · intro j hj u
    by_cases hut : u = t
    · subst hut
      have hne : ∀ {b : State}, b.Held u i → ¬ b.Held u j := fun hb hb' => hj (Option.some.inj (hb'.symm.trans hb))
      exact iff_of_false (hne hheld') (hne hheld)
    · rw [State.Held, hthread u hut, State.Held]
  · intro u d hu hd
    by_cases hut : u = t
    · subst hut
      have hdi : d = i := Option.some.inj ((held_advance hu).symm.trans hheld)
      exact absurd (hdi ▸ hd) hopen
    · rw [hthread u hut, hu]
  · simp [State.Untouched, hactive]
  · intro _ ha
    simp [hactive] at ha

theorem Sched.idle (h : Sched tbl a) (hnodes : a'.nodes = a.nodes) (hpass : a'.currentPassIndex = a.currentPassIndex)
    (hpending : a'.pendingNodeCount = a.pendingNodeCount) (hfailed : a'.failedNodeCount = a.failedNodeCount)
    (hthread : ∀ u, u ≠ t → a'.thread u = a.thread u) (hold : (a.thread t).node? = none)
    (hnew : (a'.thread t).node? = none) : Sched tbl a' := by
  refine h.same hnodes hpass hpending hfailed ?_ ?_
  · intro u i
    by_cases hut : u = t
    · subst hut
      simp [State.Held, hold, hnew]
    · rw [State.Held, hthread u hut, State.Held]
  · intro u d hu _
    by_cases hut : u = t
    · subst hut
      simp [hu, ThreadPc.node?] at hold
    · rw [hthread u hut, hu]

theorem Sched.unpark (h : Sched tbl a) (hinv : NodeInv tbl cfg a) : Sched tbl a.unpark := by
  unfold State.unpark
  split
  · exact h
  · next j rest hlist =>
    have hmem : j ∈ a.expensiveWaitList := by simp [hlist]
    have hj := hinv.parked_lt j hmem
    have hnode := hinv.node j hj
    obtain ⟨hq, ha⟩ := hnode.parked_iff.mp hmem
    have hprogress := hnode.parked_progress hq ha
    have hopen : ¬ a.Completed j := by simp [State.Completed, hprogress]
    have hresult := h.open_result j hj hopen
    refine h.change hj (by simp [State.Untouched, ha]) hopen (fun i hi => by simp [hi]) rfl rfl
      (.inl ⟨rfl, .inl (by simp [State.Completed, hprogress])⟩) (fun _ _ _ => Iff.rfl) (fun _ _ hu _ => hu) ?_ ?_ ?_
        ?_ ?_
    · exact fun _ _ => h.ready j hj (by simp [hprogress]) (by simp [hprogress])
    · simp [State.Untouched, hprogress]
    · simp [hprogress]
    · simp [State.Completed, hprogress]
    · simp [hresult]

/-- The first node of the ring goes to a thread. -/
theorem Sched.dequeue {rest : List Nat} (h : Sched tbl a) (hinv : NodeInv tbl cfg a) (hpc : a.thread t = .loop)
    (hring : a.ring = i :: rest) :
    Sched tbl
      (({ a with ring := rest }.setNode i { a.nodes i with queued := false, active := true }).setThread t
      (.advance i)) := by
  have hmem : i ∈ a.ring := by simp [hring]
  have hi := hinv.ring_lt i hmem
  have hnode := hinv.node i hi
  obtain ⟨hq, ha⟩ := hnode.ring_iff.mp hmem
  have hopen : ¬ a.Completed i := fun hdone => by simp [(hnode.done_flags hdone).1] at hq
  have hresult := h.open_result i hi hopen
  have hstill : (a.nodes i).progress ≠ .completed := hopen
  refine h.change hi (by simp [State.Untouched, hq]) hopen (fun j hj => by simp [hj]) rfl rfl
    (.inl ⟨rfl, .inl (by simp [State.Completed, hstill])⟩) ?_ ?_ ?_ ?_ ?_ ?_ ?_
  · intro j hj u
    by_cases hut : u = t
    · subst hut
      simp [State.Held, hpc, ThreadPc.node?, hj.symm]
    · simp [State.Held, hut]
  · intro u d hu _
    have hut : u ≠ t := by
      rintro rfl
      simp [hpc] at hu
    simpa [hut] using hu
  · intro hp _
    exact h.ready i hi (by simpa using hp) fun _ => .inl hq
  · simp [State.Untouched]
  · simp
  · simp [State.Completed, hstill]
  · simp [hresult]

/-- A thread lets go of its node without completing it. -/
theorem Sched.drop (h : Sched tbl a) (hinv : NodeInv tbl cfg a) (hheld : a.Held t i) (hopen : ¬ a.Completed i)
    (hnodes : ∀ j, j ≠ i → a'.nodes j = a.nodes j) (hpass : a'.currentPassIndex = a.currentPassIndex)
    (hpending : a'.pendingNodeCount = a.pendingNodeCount) (hfailed : a'.failedNodeCount = a.failedNodeCount)
    (hthread : a'.thread = Function.update a.thread t .loop) (hopen' : ¬ a'.Completed i) (hafter : ¬ a'.Untouched i)
    (hresult : (a'.nodes i).buildResult = (a.nodes i).buildResult)
    (hready : (a'.nodes i).progress ≠ .initial →
    ((a'.nodes i).progress = .blocked → (a'.nodes i).queued = true ∨ (a'.nodes i).active = true) → a.Ready tbl i)
    (hwaits : (a'.nodes i).queued = false → (a'.nodes i).active = false → (a'.nodes i).progress = .blocked →
    ¬ a.Ready tbl i) :
    Sched tbl a' := by
  have hi := hinv.held_lt t i hheld
  refine h.change hi (hinv.touched hheld) hopen hnodes hpass hpending (.inl ⟨hfailed, .inl hopen'⟩) ?_ ?_ hready
    hafter hwaits
    (fun hc => absurd hc hopen') (fun _ => hresult.trans (h.open_result i hi hopen))
  · intro j hj u
    rw [State.Held, hthread, State.Held]
    by_cases hut : u = t
    · subst hut
      rw [Function.update_self, show (a.thread u).node? = some i from hheld]
      simp [ThreadPc.node?, hj.symm]
    · rw [Function.update_of_ne hut]
  · intro u d hu hd
    have hut : u ≠ t := by
      rintro rfl
      have hdi : d = i := Option.some.inj ((held_advance hu).symm.trans hheld)
      exact hopen (hdi ▸ hd)
    rw [hthread, Function.update_of_ne hut, hu]

/-! ### Every step keeps the two parts -/

theorem NodeInv.release (h : NodeInv tbl cfg a) (i : Nat) : NodeInv tbl cfg (a.release tbl i) := by
  unfold State.release
  split
  · exact (h.of_eq rfl rfl rfl rfl : NodeInv tbl cfg { a with expensiveRunning := a.expensiveRunning - 1 }).unpark
  · exact h

theorem Sched.release (h : Sched tbl a) (hinv : NodeInv tbl cfg a) (i : Nat) : Sched tbl (a.release tbl i) := by
  unfold State.release
  split
  · have hsched : Sched tbl { a with expensiveRunning := a.expensiveRunning - 1 } :=
      h.same rfl rfl rfl rfl (fun _ _ => Iff.rfl) fun _ _ hu _ => hu
    have hnodes : NodeInv tbl cfg { a with expensiveRunning := a.expensiveRunning - 1 } := hinv.of_eq rfl rfl rfl rfl
    exact hsched.unpark hnodes
  · exact h

/-- A thread goes on with its node, in both parts of the invariant; the step says what becomes of the progress. -/
theorem hold_both (hinv : NodeInv tbl cfg a) (hsched : Sched tbl a) (ht : t < cfg.threadCount) (hheld : a.Held t i)
    (hopen : ¬ a.Completed i) (pc : ThreadPc) (hpc : pc.node? = some i) (n : NodeState)
    (hqueued : n.queued = (a.nodes i).queued) (hactive : n.active = (a.nodes i).active)
    (hnodes : a'.nodes = Function.update a.nodes i n) (hthread : a'.thread = Function.update a.thread t pc)
    (hring : a'.ring = a.ring) (hparked : a'.expensiveWaitList = a.expensiveWaitList)
    (hpass : a'.currentPassIndex = a.currentPassIndex) (hpending : a'.pendingNodeCount = a.pendingNodeCount)
    (hfailed : a'.failedNodeCount = a.failedNodeCount ∧ (n.progress ≠ .completed ∨ n.buildResult = 0) ∨
    a'.failedNodeCount = a.failedNodeCount + 1 ∧ n.progress = .completed ∧ n.buildResult ≠ 0)
    (hready : n.progress ≠ .initial → a.Ready tbl i) (hdone : n.progress = .completed → pc = .advance i)
    (hresult : n.progress ≠ .completed → n.buildResult = (a.nodes i).buildResult)
    (hcheck : pc = .checkInput i → n.progress = .unblocked)
    (hrunning : pc.running? = some i → n.progress = .runAction ∧ (tbl.data i).action.bytes ≠ []) :
    NodeInv tbl cfg a' ∧ Sched tbl a' := by
  have hi := hinv.held_lt t i hheld
  have hheld' : a'.Held t i := by rw [State.Held, hthread, Function.update_self, hpc]
  have hself : a'.nodes i = n := by rw [hnodes, Function.update_self]
  have hself' : a'.thread t = pc := by rw [hthread, Function.update_self]
  have hother : ∀ u, u ≠ t → a'.thread u = a.thread u := fun u hu => by rw [hthread, Function.update_of_ne hu]
  have hnodes' : ∀ j, j ≠ i → a'.nodes j = a.nodes j := fun j hj => by rw [hnodes, Function.update_of_ne hj]
  constructor
  · refine hinv.hold ht hheld hheld' hnodes' (by rw [hself, hqueued]) (by rw [hself, hactive]) hring hparked hother ?_
      ?_
    · rwa [hself', hself]
    · rwa [hself', hself]
  · refine hsched.hold hinv hheld hheld' hopen hnodes' (by rw [hself, hactive, (hinv.held_flags hheld).2]) hpass
      hpending ?_
      hother (by rwa [hself]) ?_ ?_
    · rwa [State.Completed, hself]
    · rwa [State.Completed, hself, hself']
    · rw [State.Completed, hself]
      exact fun hc => (hresult hc).trans (hsched.open_result i hi hopen)

theorem update_thread_self {pc : ThreadPc} (hpc : a.thread t = pc) : a.thread = Function.update a.thread t pc := by
  rw [← hpc, Function.update_eq_self]

theorem update_nodes_self (i : Nat) :
    a.nodes = Function.update a.nodes i (a.nodes i) := (Function.update_eq_self i _).symm

/-- Only the fields the two parts of the invariant read. -/
theorem Sched.of_eq (h : Sched tbl a) (hnodes : a'.nodes = a.nodes) (hthread : a'.thread = a.thread)
    (hpass : a'.currentPassIndex = a.currentPassIndex) (hpending : a'.pendingNodeCount = a.pendingNodeCount)
    (hfailed : a'.failedNodeCount = a.failedNodeCount) : Sched tbl a' := by
  refine h.same hnodes hpass hpending hfailed (fun u i => ?_) fun u d hu _ => ?_
  · rw [State.Held, hthread, State.Held]
  · rw [hthread, hu]

theorem advance_progress (hinv : NodeInv tbl cfg a) (hsched : Sched tbl a) (ht : t < cfg.threadCount)
    (hpc : a.thread t = .advance i) (hopen : ¬ a.Completed i) (hbegun : (a.nodes i).progress ≠ .initial)
    (progress : BuildProgress) (hopen' : progress ≠ .completed) :
    NodeInv tbl cfg (a.setNode i { a.nodes i with progress := progress }) ∧
      Sched tbl (a.setNode i { a.nodes i with progress := progress }) :=
  hold_both hinv hsched ht (held_advance hpc) hopen (.advance i) rfl { a.nodes i with progress := progress } rfl rfl rfl
    (update_thread_self hpc) rfl rfl rfl rfl (.inl ⟨rfl, .inl hopen'⟩)
    (fun _ => hsched.ready_held hinv (held_advance hpc) hbegun) (fun hc => absurd hc hopen') (fun _ => rfl) (by simp)
    (by simp [ThreadPc.running?])

/-- A thread comes back from an action with the lock in its hands. -/
theorem relock_progress {result : Option ExecResult} (hinv : NodeInv tbl cfg a) (hsched : Sched tbl a)
    (ht : t < cfg.threadCount) (hpc : a.thread t = .relock i result) :
    NodeInv tbl cfg ((((a.childSignal result).setLock (some t)).setThread t (.advance i)).setNode i
        { a.nodes i with progress := State.exitProgress result }) ∧
      Sched tbl ((((a.childSignal result).setLock (some t)).setThread t (.advance i)).setNode i
        { a.nodes i with progress := State.exitProgress result }) := by
  have hrunning : (a.thread t).running? = some i := by rw [hpc]; rfl
  have hheld : a.Held t i := node?_of_running? hrunning
  have hprogress := ((hinv.node i (hinv.held_lt t i hheld)).running_progress t hrunning).1
  have hexit : State.exitProgress result ≠ .completed := by
    rcases State.exitProgress_cases result with hp | hp <;> simp [hp]
  exact hold_both hinv hsched ht hheld (by simp [State.Completed, hprogress]) (.advance i) rfl
    { a.nodes i with progress := State.exitProgress result } rfl rfl rfl rfl rfl rfl rfl rfl (.inl ⟨rfl, .inl hexit⟩)
    (fun _ => hsched.ready_held hinv hheld (by simp [hprogress])) (fun hc => absurd hc hexit) (by simp) (by simp)
    (by simp [ThreadPc.running?])

theorem ThreadStep.nodes (hstep : ThreadStep tbl cfg a t c a' es) (ht : t < cfg.threadCount) (hinv : NodeInv tbl cfg a)
    (hsched : Sched tbl a) : NodeInv tbl cfg a' ∧ Sched tbl a' := by
  have hother : ∀ (pc : ThreadPc) u, u ≠ t → Function.update a.thread t pc u = a.thread u :=
    fun _ u hu => Function.update_of_ne hu _ _
  have hsame : ∀ {i : Nat} (pc : ThreadPc), (a.thread t).running? = some i → pc.running? = some i → pc ≠ .checkInput i →
      NodeInv tbl cfg (a.setThread t pc) ∧ Sched tbl (a.setThread t pc) := by
    intro i pc hrunning hpc hcheck
    have hheld : a.Held t i := node?_of_running? hrunning
    obtain ⟨hprogress, haction⟩ := (hinv.node i (hinv.held_lt t i hheld)).running_progress t hrunning
    exact hold_both hinv hsched ht hheld (by simp [State.Completed, hprogress]) pc (node?_of_running? hpc) (a.nodes i)
      rfl
      rfl (update_nodes_self i) rfl rfl rfl rfl rfl (.inl ⟨rfl, .inl (by simp [hprogress])⟩)
      (fun hp => hsched.ready_held hinv hheld hp) (by simp [hprogress]) (by simp) (fun hc => absurd hc hcheck)
      fun _ => ⟨hprogress, haction⟩
  cases hstep with
  | idle hpc => exact ⟨hinv, hsched⟩
  | acquire hpc hlock =>
      have hold : (a.thread t).node? = none := by rw [hpc]; rfl
      exact ⟨hinv.idle ht rfl rfl rfl (hother _) hold (by simp [ThreadPc.node?]),
        hsched.idle rfl rfl rfl rfl (hother _) hold (by simp [ThreadPc.node?])⟩
  | sleep hpc hkeep hring =>
      have hold : (a.thread t).node? = none := by rw [hpc]; rfl
      exact ⟨hinv.idle ht rfl rfl rfl (hother _) hold (by simp [ThreadPc.node?]),
        hsched.idle rfl rfl rfl rfl (hother _) hold (by simp [ThreadPc.node?])⟩
  | exit hpc hkeep =>
      have hold : (a.thread t).node? = none := by rw [hpc]; rfl
      exact ⟨hinv.idle ht rfl rfl rfl (hother _) hold (by simp [ThreadPc.node?]),
        hsched.idle rfl rfl rfl rfl (hother _) hold (by simp [ThreadPc.node?])⟩
  | dequeue hpc hkeep hring => exact ⟨hinv.dequeue ht hpc hring, hsched.dequeue hinv hpc hring⟩
  | @block i hpc hprogress hwait =>
      have hheld := held_advance hpc
      refine ⟨hinv.block ht hpc,
        hsched.drop hinv hheld (by simp [State.Completed, hprogress]) (fun j hj => by simp [hj])
        rfl rfl rfl rfl (by simp [State.Completed]) (by simp [State.Untouched]) (by simp) ?_ (fun _ _ _ => hwait)⟩
      simp [(hinv.held_flags hheld).1]
  | @unblock i hpc hprogress hready =>
      have hheld := held_advance hpc
      refine hold_both hinv hsched ht hheld ?_ (.advance i) rfl { a.nodes i with progress := .unblocked } rfl rfl rfl
        (update_thread_self hpc) rfl rfl rfl rfl (.inl ⟨rfl, .inl (by simp)⟩) (fun _ => hready) (by simp) (by simp)
          (by simp)
        (by simp [ThreadPc.running?])
      rcases hprogress with h | h <;> simp [State.Completed, h]
  | @enterCheck i hpc hprogress =>
      have hheld := held_advance hpc
      exact hold_both hinv hsched ht hheld (by simp [State.Completed, hprogress]) (.checkInput i) rfl (a.nodes i) rfl
        rfl (update_nodes_self i) rfl rfl rfl rfl rfl (.inl ⟨rfl, .inl (by simp [hprogress])⟩)
        (fun hp => hsched.ready_held hinv hheld hp) (by simp [hprogress]) (by simp) (by simp [hprogress])
          (by simp [ThreadPc.running?])
  | @finishCheck i hpc hlock =>
      have hheld : a.Held t i := by rw [State.Held, hpc]; rfl
      have hprogress := (hinv.node i (hinv.held_lt t i hheld)).check_progress t hpc
      have hopen : checkInputSignature (tbl.data i) (tbl.mmapState i) c.signature c.outputsMissing ≠ .completed := by
        rcases checkInputSignature_cases (tbl.data i) (tbl.mmapState i) c.signature c.outputsMissing with hv | hv <;>
          simp [hv]
      exact hold_both hinv hsched ht hheld (by simp [State.Completed, hprogress]) (.advance i) rfl
        { a.nodes i with
          inputSignature := c.signature
          progress := checkInputSignature (tbl.data i) (tbl.mmapState i) c.signature c.outputsMissing }
        rfl rfl rfl rfl rfl rfl rfl rfl (.inl ⟨rfl, .inl hopen⟩)
        (fun _ => hsched.ready_held hinv hheld (by simp [hprogress])) (fun hc => absurd hc hopen) (fun _ => rfl)
          (by simp)
        (by simp [ThreadPc.running?])
  | @runEmpty i hpc hprogress hempty =>
      have hboth := advance_progress hinv hsched ht hpc (by simp [State.Completed, hprogress]) (by simp [hprogress])
        .succeeded
        (by simp)
      exact ⟨hboth.1.release i, hboth.2.release hboth.1 i⟩
  | @park i hpc hprogress haction hexp hlimit =>
      have hheld := held_advance hpc
      refine ⟨hinv.park ht hpc hprogress haction hexp, hsched.drop hinv hheld (by simp [State.Completed, hprogress])
        (fun j hj => by simp [hj]) rfl rfl rfl rfl (by simp [State.Completed, hprogress]) (by simp [State.Untouched])
          (by simp)
        (fun _ _ => hsched.ready_held hinv hheld (by simp [hprogress])) (by simp)⟩
  | @run i hpc hprogress haction hlimit =>
      have hheld := held_advance hpc
      exact hold_both hinv hsched ht hheld (by simp [State.Completed, hprogress]) (.prepare i) rfl (a.nodes i) rfl
        rfl (update_nodes_self i) rfl rfl rfl rfl rfl (.inl ⟨rfl, .inl (by simp [hprogress])⟩)
        (fun hp => hsched.ready_held hinv hheld hp) (by simp [hprogress]) (by simp) (by simp)
          fun _ => ⟨hprogress, haction⟩
  | @noDirectories i hpc hdirs => exact hsame (.relock i none) (by rw [hpc]; rfl) rfl (by simp)
  | @launchPre i hpc hdirs hpre => exact hsame (.preAction i) (by rw [hpc]; rfl) rfl (by simp)
  | @launch i hpc hdirs hpre => exact hsame (.action i) (by rw [hpc]; rfl) rfl (by simp)
  | @preFailed i hpc hcode => exact hsame (.relock i (some c.execResult)) (by rw [hpc]; rfl) rfl (by simp)
  | @launchAfterPre i hpc hcode => exact hsame (.action i) (by rw [hpc]; rfl) rfl (by simp)
  | @actionDone i hpc => exact hsame (.relock i (some c.execResult)) (by rw [hpc]; rfl) rfl (by simp)
  | @finishAction i result hpc hlock =>
      have hboth := relock_progress hinv hsched ht hpc
      exact ⟨hboth.1.release i, hboth.2.release hboth.1 i⟩
  | @succeed i hpc hprogress =>
      have hheld := held_advance hpc
      have hopen : (a.nodes i).progress ≠ .completed ∧ (a.nodes i).progress ≠ .initial := by
        rcases hprogress with h | h <;> simp [h]
      exact hold_both hinv hsched ht hheld hopen.1 (.advance i) rfl
        { a.nodes i with buildResult := 0, progress := .completed }
        rfl rfl rfl (update_thread_self hpc) rfl rfl rfl rfl (.inl ⟨rfl, .inr rfl⟩)
        (fun _ => hsched.ready_held hinv hheld hopen.2) (fun _ => rfl) (by simp) (by simp) (by simp [ThreadPc.running?])
  | @fail i hpc hprogress =>
      have hheld := held_advance hpc
      exact hold_both hinv hsched ht hheld (by simp [State.Completed, hprogress]) (.advance i) rfl
        { a.nodes i with buildResult := 1, progress := .completed }
        rfl rfl rfl (update_thread_self hpc) rfl rfl rfl rfl (.inr ⟨rfl, rfl, by simp⟩)
        (fun _ => hsched.ready_held hinv hheld (by simp [hprogress])) (fun _ => rfl) (by simp) (by simp)
          (by simp [ThreadPc.running?])
  | @complete i ws hpc hprogress hnodup hws =>
      refine ⟨?_, hsched.complete hinv hpc hprogress hws⟩
      have hi := hinv.held_lt t i (held_advance hpc)
      have hdone : NodeInv tbl cfg { a.setThread t .loop with pendingNodeCount := a.pendingNodeCount - 1 } :=
        (hinv.done ht hpc hprogress).of_eq rfl rfl rfl rfl
      exact hdone.pushAll hnodup (fun w hw => ((NodeTable.mem_waiters_iff hi).mp ((hws w).mp hw).1).1)
        fun w hw => ((hws w).mp hw).2.2.2

/-! ### What a step of a thread leaves alone -/

/-- A completed node stays as it is, and the counters, the signal and the other threads only move one way. -/
structure Frame (t : Nat) (a a' : State) : Prop where
  driver : a'.driver = a.driver
  pass : a'.currentPassIndex = a.currentPassIndex
  quit : a'.quitSignalled = a.quitSignalled
  seen : a'.signalSeen = a.signalSeen
  signal : a.signalReason ≠ none → a'.signalReason ≠ none
  failed : a.failedNodeCount ≤ a'.failedNodeCount
  pending : a'.pendingNodeCount ≤ a.pendingNodeCount
  other : ∀ u, u ≠ t → a'.thread u = a.thread u
  alive : a.thread t ≠ .exited
  completed : ∀ i, a.Completed i → a'.Completed i ∧ (a'.nodes i).buildResult = (a.nodes i).buildResult ∧
    (a'.nodes i).inputSignature = (a.nodes i).inputSignature

/-- A step that changes one open node and the thread on it. -/
theorem Frame.of_update {n : NodeState} {pc : ThreadPc} (hopen : ¬ a.Completed i) (hdriver : a'.driver = a.driver)
    (hpass : a'.currentPassIndex = a.currentPassIndex) (hquit : a'.quitSignalled = a.quitSignalled)
    (hseen : a'.signalSeen = a.signalSeen) (hsignal : a.signalReason ≠ none → a'.signalReason ≠ none)
    (hfailed : a.failedNodeCount ≤ a'.failedNodeCount) (hpending : a'.pendingNodeCount ≤ a.pendingNodeCount)
    (hthread : a'.thread = Function.update a.thread t pc) (halive : a.thread t ≠ .exited)
    (hnodes : a'.nodes = Function.update a.nodes i n) : Frame t a a' where
  driver := hdriver
  pass := hpass
  quit := hquit
  seen := hseen
  signal := hsignal
  failed := hfailed
  pending := hpending
  other u hu := by rw [hthread, Function.update_of_ne hu]
  alive := halive
  completed j hj := by
    have hji : j ≠ i := by
      rintro rfl
      exact hopen hj
    rw [State.Completed, hnodes, Function.update_of_ne hji]
    exact ⟨hj, rfl, rfl⟩

/-- A step that changes no more of the nodes than their flags. -/
theorem Frame.of_flags (hdriver : a'.driver = a.driver) (hpass : a'.currentPassIndex = a.currentPassIndex)
    (hquit : a'.quitSignalled = a.quitSignalled) (hseen : a'.signalSeen = a.signalSeen)
    (hsignal : a.signalReason ≠ none → a'.signalReason ≠ none) (hfailed : a.failedNodeCount ≤ a'.failedNodeCount)
    (hpending : a'.pendingNodeCount ≤ a.pendingNodeCount) (hother : ∀ u, u ≠ t → a'.thread u = a.thread u)
    (halive : a.thread t ≠ .exited)
    (hnodes : ∀ j, ∃ queued active, a'.nodes j = { a.nodes j with queued := queued, active := active }) :
    Frame t a a' where
  driver := hdriver
  pass := hpass
  quit := hquit
  seen := hseen
  signal := hsignal
  failed := hfailed
  pending := hpending
  other := hother
  alive := halive
  completed j hj := by
    obtain ⟨queued, active, heq⟩ := hnodes j
    rw [State.Completed, heq]
    exact ⟨hj, rfl, rfl⟩

theorem Frame.release (h : Frame t a a') (i : Nat) : Frame t a (a'.release tbl i) := by
  obtain ⟨running, parked, ring, nodes, heq, hnodes⟩ := a'.release_eq tbl i
  rw [heq]
  refine ⟨h.driver, h.pass, h.quit, h.seen, h.signal, h.failed, h.pending, h.other, h.alive, fun j hj => ?_⟩
  obtain ⟨active, hactive⟩ := hnodes j
  simp only [State.Completed, hactive]
  exact h.completed j hj

theorem ThreadStep.frame (hstep : ThreadStep tbl cfg a t c a' es) (hinv : NodeInv tbl cfg a) : Frame t a a' := by
  have hother : ∀ (pc : ThreadPc) u, u ≠ t → Function.update a.thread t pc u = a.thread u :=
    fun _ u hu => Function.update_of_ne hu _ _
  have hsame : ∀ j, ∃ queued active, a.nodes j = { a.nodes j with queued := queued, active := active } :=
    fun j => ⟨_, _, rfl⟩
  have hflags : ∀ {i : Nat} {queued active : Bool} (j : Nat), ∃ q b,
      Function.update a.nodes i { a.nodes i with queued := queued, active := active } j =
        { a.nodes j with queued := q, active := b } := by
    intro i queued active j
    by_cases hj : j = i
    · subst hj
      exact ⟨queued, active, Function.update_self ..⟩
    · exact ⟨_, _, Function.update_of_ne hj ..⟩
  cases hstep with
  | idle hpc => exact .of_flags rfl rfl rfl rfl id le_rfl le_rfl (fun _ _ => rfl) (by simp [hpc]) hsame
  | acquire hpc hlock => exact .of_flags rfl rfl rfl rfl id le_rfl le_rfl (hother _) (by simp [hpc]) hsame
  | sleep hpc hkeep hring => exact .of_flags rfl rfl rfl rfl id le_rfl le_rfl (hother _) (by simp [hpc]) hsame
  | exit hpc hkeep => exact .of_flags rfl rfl rfl rfl id le_rfl le_rfl (hother _) (by simp [hpc]) hsame
  | dequeue hpc hkeep hring => exact .of_flags rfl rfl rfl rfl id le_rfl le_rfl (hother _) (by simp [hpc]) hflags
  | block hpc hprogress hwait =>
      exact .of_update (by simp [State.Completed, hprogress]) rfl rfl rfl rfl id le_rfl le_rfl rfl (by simp [hpc]) rfl
  | @unblock i hpc hprogress hready =>
      have hopen : ¬ a.Completed i := by rcases hprogress with h | h <;> simp [State.Completed, h]
      exact .of_update hopen rfl rfl rfl rfl id le_rfl le_rfl (update_thread_self hpc) (by simp [hpc]) rfl
  | enterCheck hpc hprogress => exact .of_flags rfl rfl rfl rfl id le_rfl le_rfl (hother _) (by simp [hpc]) hsame
  | @finishCheck i hpc hlock =>
      have hheld : a.Held t i := by rw [State.Held, hpc]; rfl
      have hprogress := (hinv.node i (hinv.held_lt t i hheld)).check_progress t hpc
      exact .of_update (by simp [State.Completed, hprogress]) rfl rfl rfl rfl id le_rfl le_rfl rfl (by simp [hpc]) rfl
  | @runEmpty i hpc hprogress hempty =>
      have hframe : Frame t a (a.setNode i { a.nodes i with progress := .succeeded }) :=
        .of_update (by simp [State.Completed, hprogress]) rfl rfl rfl rfl id le_rfl le_rfl (update_thread_self hpc)
          (by simp [hpc]) rfl
      exact hframe.release i
  | park hpc hprogress haction hexp hlimit =>
      exact .of_flags rfl rfl rfl rfl id le_rfl le_rfl (hother _) (by simp [hpc]) hflags
  | run hpc hprogress haction hlimit =>
      exact .of_flags rfl rfl rfl rfl id le_rfl le_rfl (hother _) (by simp [hpc]) hsame
  | noDirectories hpc hdirs => exact .of_flags rfl rfl rfl rfl id le_rfl le_rfl (hother _) (by simp [hpc]) hsame
  | launchPre hpc hdirs hpre => exact .of_flags rfl rfl rfl rfl id le_rfl le_rfl (hother _) (by simp [hpc]) hsame
  | launch hpc hdirs hpre => exact .of_flags rfl rfl rfl rfl id le_rfl le_rfl (hother _) (by simp [hpc]) hsame
  | preFailed hpc hcode => exact .of_flags rfl rfl rfl rfl id le_rfl le_rfl (hother _) (by simp [hpc]) hsame
  | launchAfterPre hpc hcode => exact .of_flags rfl rfl rfl rfl id le_rfl le_rfl (hother _) (by simp [hpc]) hsame
  | actionDone hpc => exact .of_flags rfl rfl rfl rfl id le_rfl le_rfl (hother _) (by simp [hpc]) hsame
  | @finishAction i result hpc hlock =>
      have hrunning : (a.thread t).running? = some i := by rw [hpc]; rfl
      have hprogress :=
        ((hinv.node i (hinv.held_lt t i (node?_of_running? hrunning))).running_progress t hrunning).1
      have hframe : Frame t a ((((a.childSignal result).setLock (some t)).setThread t (.advance i)).setNode i
          { a.nodes i with progress := State.exitProgress result }) :=
        .of_update (by simp [State.Completed, hprogress]) rfl rfl rfl rfl
          (fun h => State.childReason_ne_none h result) le_rfl
          le_rfl rfl (by simp [hpc]) rfl
      exact hframe.release i
  | @succeed i hpc hprogress =>
      have hopen : ¬ a.Completed i := by rcases hprogress with h | h <;> simp [State.Completed, h]
      exact .of_update hopen rfl rfl rfl rfl id le_rfl le_rfl (update_thread_self hpc) (by simp [hpc]) rfl
  | fail hpc hprogress =>
      exact .of_update (by simp [State.Completed, hprogress]) rfl rfl rfl rfl id (Int.le_add_one le_rfl) le_rfl
        (update_thread_self hpc) (by simp [hpc]) rfl
  | @complete i ws hpc hprogress hnodup hws =>
      refine .of_flags rfl rfl rfl rfl id le_rfl (Int.sub_le_self _ (by decide)) (hother _) (by simp [hpc]) fun j => ?_
      by_cases hj : j ∈ ws
      · exact ⟨true, (a.nodes j).active, by simp [State.pushAll, State.queueAll, hj]⟩
      · exact ⟨(a.nodes j).queued, (a.nodes j).active, by simp [State.pushAll, State.queueAll, hj]⟩

/-! ### The lock -/

/-- Whoever is at `loop` or `advance` holds the lock. -/
def LockOk (a : State) : Prop := ∀ t, (a.thread t).holdsLock = true ↔ a.lock = some t

theorem LockOk.keep (h : LockOk a) (hlock : a'.lock = a.lock) (hthread : ∀ u, u ≠ t → a'.thread u = a.thread u)
    (hpc : (a'.thread t).holdsLock = (a.thread t).holdsLock) : LockOk a' := by
  intro u
  by_cases hut : u = t
  · subst hut
    rw [hpc, hlock]
    exact h u
  · rw [hthread u hut, hlock]
    exact h u

theorem LockOk.take (h : LockOk a) (hfree : a.lock = none) (hlock : a'.lock = some t)
    (hthread : ∀ u, u ≠ t → a'.thread u = a.thread u) (hpc : (a'.thread t).holdsLock = true) : LockOk a' := by
  intro u
  by_cases hut : u = t
  · subst hut
    simp [hpc, hlock]
  · rw [hthread u hut, h u, hfree, hlock]
    simp [Ne.symm hut]

theorem LockOk.drop (h : LockOk a) (hheld : (a.thread t).holdsLock = true) (hlock : a'.lock = none)
    (hthread : ∀ u, u ≠ t → a'.thread u = a.thread u) (hpc : (a'.thread t).holdsLock = false) : LockOk a' := by
  have howner := (h t).mp hheld
  intro u
  by_cases hut : u = t
  · subst hut
    simp [hpc, hlock]
  · rw [hthread u hut, h u, howner, hlock]
    simp [Ne.symm hut]

theorem LockOk.release (h : LockOk a) (i : Nat) : LockOk (a.release tbl i) := by
  obtain ⟨running, parked, ring, nodes, heq, -⟩ := a.release_eq tbl i
  rw [heq]
  exact h

/-- One thread at a time is at `loop` or `advance`. -/
theorem LockOk.unique (h : LockOk a) (ht : (a.thread t).holdsLock = true) (hu : (a.thread u).holdsLock = true) :
    t = u :=
  Option.some.inj (((h t).mp ht).symm.trans ((h u).mp hu))

theorem ThreadStep.lock (hstep : ThreadStep tbl cfg a t c a' es) (h : LockOk a) : LockOk a' := by
  have hother : ∀ (pc : ThreadPc) u, u ≠ t → Function.update a.thread t pc u = a.thread u :=
    fun _ u hu => Function.update_of_ne hu _ _
  cases hstep with
  | idle hpc => exact h
  | acquire hpc hlock => exact h.take hlock rfl (hother _) (by simp [ThreadPc.holdsLock])
  | sleep hpc hkeep hring => exact h.drop (by rw [hpc]; rfl) rfl (hother _) (by simp [ThreadPc.holdsLock])
  | exit hpc hkeep => exact h.drop (by rw [hpc]; rfl) rfl (hother _) (by simp [ThreadPc.holdsLock])
  | dequeue hpc hkeep hring => exact h.keep rfl (hother _) (by simp [hpc, ThreadPc.holdsLock])
  | block hpc hprogress hwait => exact h.keep rfl (hother _) (by simp [hpc, ThreadPc.holdsLock])
  | unblock hpc hprogress hready => exact h
  | enterCheck hpc hprogress => exact h.drop (by rw [hpc]; rfl) rfl (hother _) (by simp [ThreadPc.holdsLock])
  | finishCheck hpc hlock => exact h.take hlock rfl (hother _) (by simp [ThreadPc.holdsLock])
  | @runEmpty i hpc hprogress hempty =>
      have hset : LockOk (a.setNode i { a.nodes i with progress := .succeeded }) := h
      exact hset.release i
  | park hpc hprogress haction hexp hlimit => exact h.keep rfl (hother _) (by simp [hpc, ThreadPc.holdsLock])
  | run hpc hprogress haction hlimit => exact h.drop (by rw [hpc]; rfl) rfl (hother _) (by simp [ThreadPc.holdsLock])
  | noDirectories hpc hdirs => exact h.keep rfl (hother _) (by simp [hpc, ThreadPc.holdsLock])
  | launchPre hpc hdirs hpre => exact h.keep rfl (hother _) (by simp [hpc, ThreadPc.holdsLock])
  | launch hpc hdirs hpre => exact h.keep rfl (hother _) (by simp [hpc, ThreadPc.holdsLock])
  | preFailed hpc hcode => exact h.keep rfl (hother _) (by simp [hpc, ThreadPc.holdsLock])
  | launchAfterPre hpc hcode => exact h.keep rfl (hother _) (by simp [hpc, ThreadPc.holdsLock])
  | actionDone hpc => exact h.keep rfl (hother _) (by simp [hpc, ThreadPc.holdsLock])
  | @finishAction i result hpc hlock =>
      have hset : LockOk ((((a.childSignal result).setLock (some t)).setThread t (.advance i)).setNode i
          { a.nodes i with progress := State.exitProgress result }) :=
        h.take hlock rfl (hother _) (by simp [ThreadPc.holdsLock])
      exact hset.release i
  | succeed hpc hprogress => exact h
  | fail hpc hprogress => exact h
  | complete hpc hprogress hnodup hws => exact h.keep rfl (hother _) (by simp [hpc, ThreadPc.holdsLock])

/-! ### The main thread -/

/-- Everything the ring holds is open and belongs to the current pass. -/
theorem Sched.ring_pass (h : Sched tbl a) (hinv : NodeInv tbl cfg a) (hi : i ∈ a.ring) :
    some (tbl.pass i) = a.currentPassIndex ∧ ¬ a.Completed i := by
  have hlt := hinv.ring_lt i hi
  have hnode := hinv.node i hlt
  have hq := (hnode.ring_iff.mp hi).1
  have hopen : ¬ a.Completed i := fun hdone => by simp [(hnode.done_flags hdone).1] at hq
  exact ⟨h.pass_eq hlt (by simp [State.Untouched, hq]) hopen, hopen⟩

theorem Sched.parked_pass (h : Sched tbl a) (hinv : NodeInv tbl cfg a) (hi : i ∈ a.expensiveWaitList) :
    some (tbl.pass i) = a.currentPassIndex ∧ ¬ a.Completed i := by
  have hlt := hinv.parked_lt i hi
  have hnode := hinv.node i hlt
  have hq := (hnode.parked_iff.mp hi).1
  have hopen : ¬ a.Completed i := fun hdone => by simp [(hnode.done_flags hdone).1] at hq
  exact ⟨h.pass_eq hlt (by simp [State.Untouched, hq]) hopen, hopen⟩

/-- When the passes that have begun are done, the queue is empty. -/
theorem Outcome.empty {r : BuildResult} (h : Outcome tbl cfg a p r) (hr : r = .ok) (hinv : NodeInv tbl cfg a)
    (hsched : Sched tbl a) : a.ring = [] ∧ a.expensiveWaitList = [] := by
  have hnone : ∀ i < tbl.maxNodes, some (tbl.pass i) = a.currentPassIndex → a.Completed i := by
    intro i hi hpass
    have := (h.pass (tbl.pass i)).mp hpass.symm
    exact ((h.ok hr).2.2 i hi (by omega)).1
  constructor
  · refine List.eq_nil_iff_forall_not_mem.mpr fun i hi => ?_
    obtain ⟨hpass, hopen⟩ := hsched.ring_pass hinv hi
    exact hopen (hnone i (hinv.ring_lt i hi) hpass)
  · refine List.eq_nil_iff_forall_not_mem.mpr fun i hi => ?_
    obtain ⟨hpass, hopen⟩ := hsched.parked_pass hinv hi
    exact hopen (hnone i (hinv.parked_lt i hi) hpass)

/-- A thread that has no node and finds nothing in the ring stays without one. -/
theorem ThreadStep.not_held (hstep : ThreadStep tbl cfg a t c a' es) (hring : a.ring = [])
    (hnone : ∀ u i, ¬ a.Held u i) (u i : Nat) :
    ¬ a'.Held u i := by
  have hupdate : ∀ pc : ThreadPc, pc.node? = none → (Function.update a.thread t pc u).node? ≠ some i := by
    intro pc hpc
    by_cases hut : u = t
    · subst hut
      simp [hpc]
    · rw [Function.update_of_ne hut]
      exact hnone u i
  have hbusy : ∀ {j : Nat}, (a.thread t).node? ≠ some j := fun {j} => hnone t j
  cases hstep with
  | idle hpc => exact hnone u i
  | acquire hpc hlock => exact hupdate .loop rfl
  | sleep hpc hkeep hring => exact hupdate .start rfl
  | exit hpc hkeep => exact hupdate .exited rfl
  | dequeue hpc hkeep hcons => simp [hring] at hcons
  | _ => exact absurd (by rw [‹a.thread t = _›]; rfl) hbusy

theorem ThreadStep.outcome {r : BuildResult} (hstep : ThreadStep tbl cfg a t c a' es) (hinv : NodeInv tbl cfg a)
    (hsched : Sched tbl a) (h : Outcome tbl cfg a p r) : Outcome tbl cfg a' p r := by
  have hframe := hstep.frame hinv
  constructor
  · rw [hframe.pass]
    exact h.pass
  · intro hr
    obtain ⟨hseen, hnone, hall⟩ := h.ok hr
    refine ⟨hframe.seen.trans hseen, hstep.not_held (h.empty hr hinv hsched).1 hnone, fun i hi hp => ?_⟩
    obtain ⟨hc, hresult⟩ := hall i hi hp
    obtain ⟨hc', hresult', -⟩ := hframe.completed i hc
    exact ⟨hc', hresult'.trans hresult⟩
  · rw [hframe.seen]
    exact h.interrupted
  · intro hr
    obtain ⟨hfailed, hpending⟩ := h.buildError hr
    exact ⟨lt_of_lt_of_le hfailed hframe.failed, fun hcont => le_trans hframe.pending (hpending hcont)⟩
  · exact h.setupError

theorem Frame.stopped (h : Frame t a a') (hstop : Stopped cfg a) : Stopped cfg a' := by
  rcases hstop with ⟨hfailed, hcont⟩ | hpending
  · exact .inl ⟨lt_of_lt_of_le hfailed h.failed, hcont⟩
  · exact .inr (le_trans h.pending hpending)

theorem Frame.exited (h : Frame t a a') (hu : a.thread u = .exited) : a'.thread u = .exited := by
  have hut : u ≠ t := by
    rintro rfl
    exact h.alive hu
  rw [h.other u hut, hu]

theorem ThreadStep.exit_inv (hstep : ThreadStep tbl cfg a t c a' es) (hexit : a'.thread t = .exited) :
    ¬ a.Keep cfg t ∧ a' = (a.setLock none).setThread t .exited := by
  cases hstep with
  | exit hpc hkeep => exact ⟨hkeep, rfl⟩
  | idle hpc => simp [hpc] at hexit
  | unblock hpc hprogress hready => simp [hpc] at hexit
  | succeed hpc hprogress => simp [hpc] at hexit
  | fail hpc hprogress => simp [hpc] at hexit
  | @runEmpty i hpc hprogress hempty =>
      obtain ⟨_, _, _, _, heq, -⟩ := (a.setNode i { a.nodes i with progress := .succeeded }).release_eq tbl i
      rw [heq] at hexit
      simp [hpc] at hexit
  | @finishAction i result hpc hlock =>
      obtain ⟨_, _, _, _, heq, -⟩ := ((((a.childSignal result).setLock (some t)).setThread t (.advance i)).setNode i
          { a.nodes i with progress := State.exitProgress result }).release_eq tbl i
      rw [heq] at hexit
      simp at hexit
  | _ => simp at hexit

theorem ThreadStep.main_exit (hstep : ThreadStep tbl cfg a 0 c a' es) (hquit : a.quitSignalled = false)
    (hexit : a'.thread 0 = .exited) : a'.signalReason ≠ none ∨ Stopped cfg a' := by
  obtain ⟨hkeep, rfl⟩ := hstep.exit_inv hexit
  by_cases hsignal : a.signalReason = none
  · right
    by_cases hfailed : 0 < a.failedNodeCount ∧ cfg.continueOnError = false
    · exact .inl hfailed
    · right
      by_contra hpending
      exact hkeep ⟨hsignal, hfailed, hquit, .inr (not_le.mp hpending)⟩
  · exact .inl hsignal

theorem ThreadStep.driver (hstep : ThreadStep tbl cfg a t c a' es) (hinv : NodeInv tbl cfg a) (hsched : Sched tbl a)
    (h : DriverOk tbl cfg a a.driver) : DriverOk tbl cfg a' a'.driver := by
  have hframe := hstep.frame hinv
  rw [hframe.driver]
  generalize a.driver = pc at h
  cases pc with
  | passLoop p r =>
      obtain ⟨hmain, hquit, hout⟩ := h
      exact ⟨hframe.exited hmain, hframe.quit.trans hquit, hstep.outcome hinv hsched hout⟩
  | wake p =>
      obtain ⟨hmain, hquit, hpass⟩ := h
      exact ⟨hframe.exited hmain, hframe.quit.trans hquit, hframe.pass.trans hpass⟩
  | loop p =>
      obtain ⟨hquit, hpass, hstop⟩ := h
      refine ⟨hframe.quit.trans hquit, hframe.pass.trans hpass, fun hexit => ?_⟩
      by_cases hmain : a.thread 0 = .exited
      · exact (hstop hmain).imp hframe.signal hframe.stopped
      · have ht : t = 0 := by
          by_contra ht
          exact hmain ((hframe.other 0 (Ne.symm ht)).symm.trans hexit)
        subst ht
        exact hstep.main_exit hquit hexit
  | readFailed p =>
      obtain ⟨hmain, hquit, hpass, hseen, hstop⟩ := h
      exact ⟨hframe.exited hmain, hframe.quit.trans hquit, hframe.pass.trans hpass, hframe.seen.trans hseen,
        hframe.stopped hstop⟩
  | destroy r =>
      obtain ⟨hmain, hquit, p, hout, hend⟩ := h
      exact ⟨hframe.exited hmain, hframe.quit.trans hquit, p, hstep.outcome hinv hsched hout, hend⟩
  | destroyWake r =>
      obtain ⟨hmain, p, hout, hend⟩ := h
      exact ⟨hframe.exited hmain, p, hstep.outcome hinv hsched hout, hend⟩
  | join r =>
      obtain ⟨hmain, p, hout, hend⟩ := h
      exact ⟨hframe.exited hmain, p, hstep.outcome hinv hsched hout, hend⟩
  | done r => exact absurd (h.1 t) hframe.alive

/-! ### The steps of the main thread -/

theorem Outcome.of_eq {r : BuildResult} (h : Outcome tbl cfg a p r) (hnodes : a'.nodes = a.nodes)
    (hthread : a'.thread = a.thread) (hpass : a'.currentPassIndex = a.currentPassIndex)
    (hseen : a'.signalSeen = a.signalSeen) (hfailed : a'.failedNodeCount = a.failedNodeCount)
    (hpending : a'.pendingNodeCount = a.pendingNodeCount) :
    Outcome tbl cfg a' p r := by
  constructor
  · rw [hpass]
    exact h.pass
  · simp only [State.Held, State.Completed, hnodes, hthread, hseen]
    exact h.ok
  · rw [hseen]
    exact h.interrupted
  · rw [hfailed, hpending]
    exact h.buildError
  · exact h.setupError

/-- Once nothing is pending, everybody is done with the current pass and the ones before it. -/
theorem Sched.finished (h : Sched tbl a) (hinv : NodeInv tbl cfg a) (hpass : a.currentPassIndex = some p)
    (hpending : a.pendingNodeCount ≤ 0) :
    (∀ t i, ¬ a.Held t i) ∧ ∀ i < tbl.maxNodes, tbl.pass i ≤ p → a.Completed i := by
  have hempty : openNodes tbl a = ∅ := by
    rw [h.pending] at hpending
    exact Finset.card_eq_zero.mp (by omega)
  have hout : ∀ i, i ∉ openNodes tbl a := by simp [hempty]
  constructor
  · intro t i hheld
    exact hout i (mem_openNodes.mpr ⟨hinv.held_lt t i hheld, h.held_pass t i hheld, .inr ⟨t, hheld⟩⟩)
  · intro i hi hle
    rcases Nat.lt_or_eq_of_le hle with hlt | heq
    · exact (h.early p hpass i hi hlt).1
    · by_contra hopen
      exact hout i (mem_openNodes.mpr ⟨hi, by rw [hpass, heq], .inl hopen⟩)

theorem Sched.no_failure (h : Sched tbl a) (hfailed : a.failedNodeCount ≤ 0) (hi : i < tbl.maxNodes) :
    (a.nodes i).buildResult = 0 := by
  by_cases hdone : a.Completed i
  · obtain ⟨p, hpass, hle⟩ := h.pass_le hi (fun huntouched => by simp [State.Completed, huntouched.2.2] at hdone)
    rcases Nat.lt_or_eq_of_le hle with hlt | heq
    · exact (h.early p hpass i hi hlt).2
    · by_contra hresult
      have hmem : i ∈ failedNodes tbl a := mem_failedNodes.mpr ⟨hi, by rw [hpass, heq], hdone, hresult⟩
      have hpos := Finset.card_pos.mpr ⟨i, hmem⟩
      rw [h.failed] at hfailed
      omega
  · exact h.open_result i hi hdone

theorem NodeInv.beginPass (h : NodeInv tbl cfg a) (hsched : Sched tbl a) (hp : p < tbl.passCount)
    (hout : Outcome tbl cfg a p .ok) : NodeInv tbl cfg (a.beginPass tbl p) := by
  obtain ⟨hring, -⟩ := hout.empty rfl h hsched
  have hlate : ∀ q, a.currentPassIndex = some q → q < p := by
    intro q hq
    have := (hout.pass q).mp hq
    omega
  have hqueued := h.pushAll (nodup_passRange tbl p) (fun w hw => ((mem_passRange hp).mp hw).1) fun w hw => by
    obtain ⟨hw, hpass⟩ := (mem_passRange hp).mp hw
    obtain ⟨hq, ha, -⟩ := hsched.late w hw fun q hq => by rw [hpass]; exact hlate q hq
    exact ⟨hq, ha⟩
  exact hqueued.of_eq rfl (by simp [State.beginPass, State.pushAll, hring]) rfl rfl

theorem DriverStep.inv (hstep : DriverStep tbl cfg a a') (h : Inv tbl cfg a) : Inv tbl cfg a' := by
  have hdriver := h.driver
  cases hstep with
  | @beginPass p hpc hp hlock =>
      rw [hpc] at hdriver
      obtain ⟨hmain, hquit, hout⟩ := hdriver
      obtain ⟨-, hnobody, hall⟩ := hout.ok rfl
      refine ⟨(h.node.beginPass h.sched hp hout).of_eq rfl rfl rfl rfl, ?_, h.lock, h.signal, hmain, hquit, rfl⟩
      have hbefore : ∀ q, a.currentPassIndex = some q → q < p := fun q hq => by
        have := (hout.pass q).mp hq
        omega
      exact (h.sched.beginPass hp hbefore hall hnobody).of_eq rfl rfl rfl rfl rfl
  | @leave p r hpc hend =>
      rw [hpc] at hdriver
      obtain ⟨hmain, hquit, hout⟩ := hdriver
      exact ⟨h.node.of_eq rfl rfl rfl rfl, h.sched.of_eq rfl rfl rfl rfl rfl, h.lock, h.signal, hmain, hquit, p,
        hout.of_eq rfl rfl rfl rfl rfl rfl, hend⟩
  | @wake p hpc =>
      rw [hpc] at hdriver
      obtain ⟨hmain, hquit, hpass⟩ := hdriver
      have hother : ∀ u, u ≠ 0 → Function.update a.thread 0 .start u = a.thread u :=
        fun u hu => Function.update_of_ne hu _ _
      have hidle : (a.thread 0).node? = none := by rw [hmain]; rfl
      refine ⟨h.node.idle cfg.threadCount_pos rfl rfl rfl hother hidle (by simp [ThreadPc.node?]),
        h.sched.idle rfl rfl rfl rfl hother hidle (by simp [ThreadPc.node?]),
        LockOk.keep h.lock rfl hother (by simp [hmain, ThreadPc.holdsLock]), h.signal, hquit, hpass, fun hexit => ?_⟩
      simp at hexit
  | @interrupted p hpc hexit hsignal =>
      rw [hpc] at hdriver
      obtain ⟨hquit, hpass, -⟩ := hdriver
      refine ⟨h.node.of_eq rfl rfl rfl rfl, h.sched.of_eq rfl rfl rfl rfl rfl, h.lock, fun _ => hsignal, hexit, hquit,
        ?_⟩
      constructor
      · simp [hpass, eq_comm]
      · simp
      · exact fun _ => hsignal
      · simp
      · simp
  | @noSignal p hpc hexit hsignal =>
      rw [hpc] at hdriver
      obtain ⟨hquit, hpass, hstop⟩ := hdriver
      refine ⟨h.node.of_eq rfl rfl rfl rfl, h.sched.of_eq rfl rfl rfl rfl rfl, h.lock, ?_, hexit, hquit, hpass,
        hsignal, ?_⟩
      · exact fun hseen => hseen
      · exact (hstop hexit).resolve_left (not_not.mpr hsignal)
  | @readFailed p hpc =>
      rw [hpc] at hdriver
      obtain ⟨hmain, hquit, hpass, hseen, hstop⟩ := hdriver
      have hcount : 0 ≤ a.failedNodeCount := by
        rw [h.sched.failed]
        exact Int.natCast_nonneg _
      refine ⟨h.node.of_eq rfl rfl rfl rfl, h.sched.of_eq rfl rfl rfl rfl rfl, h.lock, h.signal, hmain, hquit, ?_⟩
      constructor
      · simp [hpass, eq_comm]
      · intro hr
        have hfailed : a.failedNodeCount = 0 := by
          by_contra hne
          simp [hne] at hr
        have hpending : a.pendingNodeCount ≤ 0 := by
          rcases hstop with ⟨hpos, -⟩ | hpending
          · omega
          · exact hpending
        obtain ⟨hnobody, hall⟩ := h.sched.finished h.node hpass hpending
        exact ⟨hseen, hnobody, fun i hi hlt => ⟨hall i hi (by omega), h.sched.no_failure hfailed.le hi⟩⟩
      · intro hr
        split_ifs at hr
      · intro hr
        have hfailed : a.failedNodeCount ≠ 0 := by
          intro heq
          simp [heq] at hr
        refine ⟨lt_of_le_of_ne hcount hfailed.symm, fun hcont => ?_⟩
        rcases hstop with ⟨-, hstopOn⟩ | hpending
        · simp [hcont] at hstopOn
        · exact hpending
      · split_ifs <;> simp
  | @destroy r hpc hlock =>
      rw [hpc] at hdriver
      obtain ⟨hmain, -, p, hout, hend⟩ := hdriver
      exact ⟨h.node.of_eq rfl rfl rfl rfl, h.sched.of_eq rfl rfl rfl rfl rfl, h.lock, h.signal, hmain, p,
        hout.of_eq rfl rfl rfl rfl rfl rfl, hend⟩
  | @destroyWake r hpc =>
      rw [hpc] at hdriver
      obtain ⟨hmain, p, hout, hend⟩ := hdriver
      exact ⟨h.node.of_eq rfl rfl rfl rfl, h.sched.of_eq rfl rfl rfl rfl rfl, h.lock, h.signal, hmain, p,
        hout.of_eq rfl rfl rfl rfl rfl rfl, hend⟩
  | @join r hpc hjoin =>
      rw [hpc] at hdriver
      obtain ⟨hmain, p, hout, hend⟩ := hdriver
      refine ⟨h.node.of_eq rfl rfl rfl rfl, h.sched.of_eq rfl rfl rfl rfl rfl, h.lock, h.signal, fun t => ?_, p,
        hout.of_eq rfl rfl rfl rfl rfl rfl, hend⟩
      by_cases ht : t < cfg.threadCount
      · by_cases hzero : t = 0
        · exact hzero ▸ hmain
        · exact hjoin t ht hzero
      · exact h.node.thread_lt t (not_lt.mp ht)

theorem ThreadStep.inv (hstep : ThreadStep tbl cfg a t c a' es) (ht : t < cfg.threadCount) (h : Inv tbl cfg a) :
    Inv tbl cfg a' := by
  have hframe := hstep.frame h.node
  obtain ⟨hnode, hsched⟩ := hstep.nodes ht h.node h.sched
  refine ⟨hnode, hsched, hstep.lock h.lock, ?_, hstep.driver h.node h.sched h.driver⟩
  rw [hframe.seen]
  exact fun hseen => hframe.signal (h.signal hseen)

theorem DriverOk.signalled {pc : DriverPc} (h : DriverOk tbl cfg a pc) (reason : String) :
    DriverOk tbl cfg { a with signalReason := some reason } pc := by
  have hout : ∀ {p : Nat} {r : BuildResult}, Outcome tbl cfg a p r →
    Outcome tbl cfg { a with signalReason := some reason } p r :=
    fun hout => hout.of_eq rfl rfl rfl rfl rfl rfl
  cases pc with
  | passLoop p r => exact ⟨h.1, h.2.1, hout h.2.2⟩
  | wake p => exact h
  | loop p => exact ⟨h.1, h.2.1, fun _ => .inl (by simp)⟩
  | readFailed p => exact h
  | destroy r => exact ⟨h.1, h.2.1, h.2.2.imp fun _ h => ⟨hout h.1, h.2⟩⟩
  | destroyWake r => exact ⟨h.1, h.2.imp fun _ h => ⟨hout h.1, h.2⟩⟩
  | join r => exact ⟨h.1, h.2.imp fun _ h => ⟨hout h.1, h.2⟩⟩
  | done r => exact ⟨h.1, h.2.imp fun _ h => ⟨hout h.1, h.2⟩⟩

theorem Inv.signalled (h : Inv tbl cfg a) (reason : String) : Inv tbl cfg { a with signalReason := some reason } :=
  ⟨h.node.of_eq rfl rfl rfl rfl, h.sched.of_eq rfl rfl rfl rfl rfl, h.lock, fun _ => by simp, h.driver.signalled reason⟩

theorem Step.inv {act : Action} (hstep : Step tbl cfg a act a' es) (h : Inv tbl cfg a) : Inv tbl cfg a' := by
  cases hstep with
  | thread ht hstep => exact hstep.inv ht h
  | signal reason => exact h.signalled reason
  | driver hstep => exact hstep.inv h

end Tundra.Spec
