import Tundra.Queue.Inv

/-!
# The source's machine refines the abstract one

`Rep tbl s a` says that `s` represents the abstract state `a`: its indices are inside the ring buffer, `a` is
what one sees through them, and no check but the one on `m_ExpensiveRunning` has failed so far. Each operation
of `Queue.State` and `Queue.Step` gets one lemma that carries `Rep` along; the theorems at the end put them
together to `step_refines` and `Reaches.rep`.
-/

namespace Tundra

variable {tbl : NodeTable} {cfg : Config} {s s' : State} {a a' : Spec.State} {i t : Nat}

/-! ### Indices of the ring -/

/-- The capacity is a power of two above the number of nodes. -/
theorem NodeTable.queueCapacity_spec (tbl : NodeTable) :
    ∃ k ≤ 31, tbl.queueCapacity = 2 ^ k ∧ tbl.maxNodes < tbl.queueCapacity := by
  have hint := tbl.maxNodes_int
  obtain ⟨k, hk, heq, hle⟩ := nextPowerOfTwo_spec (Nat.succ_pos tbl.maxNodes) (by omega)
  refine ⟨k, hk, heq, ?_⟩
  rw [NodeTable.queueCapacity, heq]
  omega

theorem NodeTable.maxNodes_lt_queueCapacity (tbl : NodeTable) : tbl.maxNodes < tbl.queueCapacity := by
  obtain ⟨_, _, _, hlt⟩ := tbl.queueCapacity_spec
  exact hlt

theorem NodeTable.and_queueCapacity (tbl : NodeTable) (n : Nat) :
    n &&& (tbl.queueCapacity - 1) = n % tbl.queueCapacity := by
  obtain ⟨k, -, heq, -⟩ := tbl.queueCapacity_spec
  rw [heq, Nat.and_two_pow_sub_one_eq_mod]

theorem State.availableNodeCount_eq (hread : s.queueReadIndex < tbl.queueCapacity) :
    availableNodeCount tbl s = Ring.length tbl.queueCapacity s.queueReadIndex s.queueWriteIndex := by
  obtain ⟨k, hk, heq, -⟩ := tbl.queueCapacity_spec
  rw [availableNodeCount, tbl.and_queueCapacity, Ring.length]
  rw [heq] at hread ⊢
  -- the capacity divides 2 ^ 32, so the wrap of the subtraction does not show
  obtain ⟨m, hm⟩ : ∃ m, 2 ^ 32 = 2 ^ k * (m + 1) := by
    refine ⟨2 ^ (32 - k) - 1, ?_⟩
    rw [Nat.sub_add_cancel Nat.one_le_two_pow, ← pow_add, show k + (32 - k) = 32 by omega]
  rw [hm, Nat.mod_mul_right_mod]
  have hsplit : s.queueWriteIndex + 2 ^ k * (m + 1) - s.queueReadIndex =
      s.queueWriteIndex + 2 ^ k - s.queueReadIndex + 2 ^ k * m := by
    rw [Nat.mul_succ]
    omega
  rw [hsplit, Nat.add_mul_mod_self_left]

/-! ### The representation -/

/-- `s` represents `a`, and no check but the one on `m_ExpensiveRunning` has failed. -/
structure Rep (tbl : NodeTable) (s : State) (a : Spec.State) : Prop where
  spec : s.spec tbl = a
  read_lt : s.queueReadIndex < tbl.queueCapacity
  write_lt : s.queueWriteIndex < tbl.queueCapacity
  checks : ∀ site ∈ s.failedChecks, site = .expensiveRunning

namespace Rep

theorem nodes (h : Rep tbl s a) : s.nodes = a.nodes := by rw [← h.spec]; rfl

theorem lock (h : Rep tbl s a) : s.lock = a.lock := by rw [← h.spec]; rfl

theorem parked (h : Rep tbl s a) : s.expensiveWaitList = a.expensiveWaitList := by rw [← h.spec]; rfl

theorem pass (h : Rep tbl s a) : s.currentPassIndex = a.currentPassIndex := by rw [← h.spec]; rfl

theorem running (h : Rep tbl s a) : s.expensiveRunning = a.expensiveRunning := by rw [← h.spec]; rfl

theorem ring (h : Rep tbl s a) :
    a.ring = Ring.contents s.queue tbl.queueCapacity s.queueReadIndex s.queueWriteIndex := by rw [← h.spec]; rfl

theorem thread (h : Rep tbl s a) (t : Nat) : a.thread t = (s.thread t).quiet := by rw [← h.spec]; rfl

theorem driver (h : Rep tbl s a) : s.driver = a.driver := by rw [← h.spec]; rfl

theorem available (h : Rep tbl s a) : State.availableNodeCount tbl s = a.ring.length := by
  rw [State.availableNodeCount_eq h.read_lt, h.ring, Ring.length_contents]

theorem check {condition : Bool} {site : Check} (h : Rep tbl s a) (hcondition : condition = true) :
    Rep tbl (s.check site condition) a := by
  rw [State.check, if_pos hcondition]
  exact h

theorem check_expensiveRunning {condition : Bool} (h : Rep tbl s a) :
    Rep tbl (s.check .expensiveRunning condition) a := by
  unfold State.check
  split
  · exact h
  · refine ⟨h.spec, h.read_lt, h.write_lt, fun site hsite => ?_⟩
    rcases List.mem_cons.mp hsite with hsite | hsite
    · exact hsite
    · exact h.checks site hsite

theorem setNode (h : Rep tbl s a) (i : Nat) (n : NodeState) : Rep tbl (s.setNode i n) (a.setNode i n) :=
  ⟨by rw [← h.spec]; rfl, h.read_lt, h.write_lt, h.checks⟩

theorem setLock (h : Rep tbl s a) (holder : Option Nat) : Rep tbl (s.setLock holder) (a.setLock holder) :=
  ⟨by rw [← h.spec]; rfl, h.read_lt, h.write_lt, h.checks⟩

theorem setDriver (h : Rep tbl s a) (pc : DriverPc) : Rep tbl (s.setDriver pc) (a.setDriver pc) :=
  ⟨by rw [← h.spec]; rfl, h.read_lt, h.write_lt, h.checks⟩

theorem setThread (h : Rep tbl s a) (t : Nat) (pc : ThreadPc) :
    Rep tbl (s.setThread t pc) (a.setThread t pc.quiet) := by
  refine ⟨?_, h.read_lt, h.write_lt, h.checks⟩
  rw [← h.spec]
  have hthread : (fun u => (Function.update s.thread t pc u).quiet) =
    Function.update (fun u => (s.thread u).quiet) t pc.quiet := by
    funext u
    by_cases hut : u = t
    · subst hut
      simp
    · simp [hut]
  simp only [State.spec, State.setThread, Spec.State.setThread, hthread]

theorem setParked (h : Rep tbl s a) (parked : List Nat) :
    Rep tbl { s with expensiveWaitList := parked } { a with expensiveWaitList := parked } :=
  ⟨by rw [← h.spec]; rfl, h.read_lt, h.write_lt, h.checks⟩

theorem setReadIndex (h : Rep tbl s a) {index : Nat} (hindex : index < tbl.queueCapacity) :
    Rep tbl (s.setReadIndex index)
      { a with ring := Ring.contents s.queue tbl.queueCapacity index s.queueWriteIndex } :=
  ⟨by rw [← h.spec]; rfl, hindex, h.write_lt, h.checks⟩

theorem writeSlot (h : Rep tbl s a) (i : Nat) {index : Nat} (hindex : index < tbl.queueCapacity) :
    Rep tbl (s.writeSlot i index)
      { a with ring := Ring.contents (Function.update s.queue s.queueWriteIndex i) tbl.queueCapacity s.queueReadIndex index } :=
  ⟨by rw [← h.spec]; rfl, h.read_lt, hindex, h.checks⟩

theorem of_quiet (h : Rep tbl s a) {thread : Nat → ThreadPc} (hquiet : ∀ t, (thread t).quiet = (s.thread t).quiet) :
    Rep tbl { s with thread := thread } a := by
  refine ⟨?_, h.read_lt, h.write_lt, h.checks⟩
  rw [← h.spec]
  simp only [State.spec, hquiet]

theorem condBroadcast (h : Rep tbl s a) : Rep tbl s.condBroadcast a := by
  refine h.of_quiet fun t => ?_
  split
  · next hasleep => rw [hasleep]; rfl
  · rfl

theorem condSignal (h : Rep tbl s a) (sleeper : Option Nat) : Rep tbl (s.condSignal sleeper) a := by
  unfold State.condSignal
  split
  · next t =>
    split
    · next hasleep =>
      refine h.of_quiet fun u => ?_
      by_cases hut : u = t
      · subst hut
        rw [Function.update_self, hasleep]
        rfl
      · rw [Function.update_of_ne hut]
    · exact h
  · exact h

theorem wakeWaiters (h : Rep tbl s a) (count : Nat) (sleeper : Option Nat) :
    Rep tbl (s.wakeWaiters count sleeper) a := by
  unfold State.wakeWaiters
  split
  · exact h.condBroadcast
  · exact h.condSignal sleeper

theorem signalSet (h : Rep tbl s a) (reason : String) :
    Rep tbl (s.signalSet reason) { a with signalReason := some reason } := by
  have hset : Rep tbl { s with signalReason := some reason } { a with signalReason := some reason } :=
    ⟨by rw [← h.spec]; rfl, h.read_lt, h.write_lt, h.checks⟩
  exact hset.condBroadcast

/-! ### The ring and the parked list -/

/-- A list without repetitions below a bound, one element short, is shorter than the bound. -/
theorem length_lt_of_nodup {ws : List Nat} {n : Nat} (hnodup : (i :: ws).Nodup) (hlt : ∀ w ∈ i :: ws, w < n) :
    ws.length < n := by
  have hsub : (i :: ws) ⊆ List.range n := fun w hw => List.mem_range.mpr (hlt w hw)
  have hle := (hnodup.subperm hsub).length_le
  rwa [List.length_cons, List.length_range] at hle

theorem allDependenciesReady_iff (h : Rep tbl s a) (hi : i < tbl.maxNodes) :
    State.allDependenciesReady tbl s i = true ↔ a.Ready tbl i := by
  rw [State.allDependenciesReady, List.all_eq_true, Spec.State.Ready, NodeTable.deps]
  simp only [List.mem_filterMap, forall_exists_index, and_imp]
  constructor
  · intro hall j d hd hremap
    have := hall d hd
    rw [hremap, h.nodes] at this
    rw [decide_eq_true_eq] at this
    exact this
  · intro hready d hd
    obtain ⟨j, hremap⟩ := Option.isSome_iff_exists.mp (tbl.closed i hi d hd)
    rw [show tbl.getStateForNode d = some j from hremap, h.nodes]
    rw [decide_eq_true_eq]
    exact hready j d hd hremap

theorem enqueue (h : Rep tbl s a) (hi : i < tbl.maxNodes) (hready : a.Ready tbl i)
    (hqueued : (a.nodes i).queued = false) (hactive : (a.nodes i).active = false) (hopen : ¬ a.Completed i)
    (hpass : some (tbl.pass i) = a.currentPassIndex) (hroom : a.ring.length < tbl.maxNodes) :
    Rep tbl (State.enqueue tbl s i) (a.push i) := by
  have hcap := tbl.maxNodes_lt_queueCapacity
  have hlen : Ring.length tbl.queueCapacity s.queueReadIndex s.queueWriteIndex = a.ring.length := by
    rw [h.ring, Ring.length_contents]
  have hpush := Ring.contents_push s.queue i h.read_lt h.write_lt (by omega)
  have hwrap : (s.queueWriteIndex + 1) % tbl.queueCapacity < tbl.queueCapacity := Nat.mod_lt _ (by omega)
  have hrep := (h.writeSlot i hwrap).setNode i { s.nodes i with queued := true }
  rw [hpush, ← h.ring] at hrep
  have hchecked : State.enqueue tbl s i =
      ((s.writeSlot i ((s.queueWriteIndex + 1) % tbl.queueCapacity)).flagQueued i).check .enqueue
        (decide (State.availableNodeCount tbl
          ((s.writeSlot i ((s.queueWriteIndex + 1) % tbl.queueCapacity)).flagQueued i) =
            1 + State.availableNodeCount tbl s)) := by
    have hopen' : (a.nodes i).progress ≠ .completed := hopen
    simp only [State.enqueue, State.check, (h.allDependenciesReady_iff hi).mpr hready, h.nodes, h.pass, hqueued,
      hactive, hopen',
      hpass, tbl.and_queueCapacity, Bool.not_false, if_true, decide_true, ne_eq, not_false_eq_true]
  rw [hchecked, State.flagQueued, State.writeSlot_nodes]
  rw [h.nodes] at hrep ⊢
  refine Rep.check hrep ?_
  rw [hrep.available, h.available]
  simp [Nat.add_comm]

theorem nextNode_cons {rest : List Nat} (h : Rep tbl s a) (hring : a.ring = i :: rest)
    (hqueued : (a.nodes i).queued = true) (hactive : (a.nodes i).active = false) :
    ∃ s', State.nextNode tbl s = some (i, s') ∧
      Rep tbl s' ({ a with ring := rest }.setNode i { a.nodes i with queued := false, active := true }) := by
  have hpos : 0 < Ring.length tbl.queueCapacity s.queueReadIndex s.queueWriteIndex := by
    rw [← Ring.length_contents s.queue, ← h.ring, hring]
    simp
  have hpop := Ring.contents_pop s.queue h.read_lt h.write_lt hpos
  rw [← h.ring, hring, List.cons.injEq] at hpop
  obtain ⟨hhead, htail⟩ := hpop
  have havail : State.availableNodeCount tbl s ≠ 0 := by
    rw [State.availableNodeCount_eq h.read_lt]
    omega
  have hcap := tbl.maxNodes_lt_queueCapacity
  have hwrap : (s.queueReadIndex + 1) % tbl.queueCapacity < tbl.queueCapacity := Nat.mod_lt _ (by omega)
  refine ⟨((s.setReadIndex ((s.queueReadIndex + 1) % tbl.queueCapacity)).flagUnqueued i).flagActive i, ?_, ?_⟩
  · rw [State.nextNode, if_neg havail, tbl.and_queueCapacity, ← hhead]
    simp only [State.check, State.setReadIndex_nodes, h.nodes, hqueued, hactive, Bool.not_false, if_true]
  · have hrep := ((h.setReadIndex hwrap).setNode i { s.nodes i with queued := false }).setNode i
      { s.nodes i with queued := false, active := true }
    rw [← htail] at hrep
    simpa only [State.flagActive, State.flagUnqueued, State.setReadIndex_nodes, State.setNode_nodes,
      Function.update_self,
      Spec.State.setNode, Function.update_idem, h.nodes] using hrep

theorem nextNode_nil (h : Rep tbl s a) (hring : a.ring = []) : State.nextNode tbl s = none := by
  rw [State.nextNode, h.available, hring, if_pos List.length_nil]

theorem parkExpensiveNode (h : Rep tbl s a) (hlen : a.expensiveWaitList.length < tbl.queueCapacity) (i : Nat) :
    Rep tbl (State.parkExpensiveNode tbl s i)
      ({ a with expensiveWaitList := i :: a.expensiveWaitList }.setNode i { a.nodes i with queued := true }) := by
  have hflag := h.setNode i { s.nodes i with queued := true }
  have hlen' : s.expensiveWaitList.length < tbl.queueCapacity := by rwa [h.parked]
  have hcheck : Rep tbl ((s.flagQueued i).check .parkExpensiveNode
    (decide (s.expensiveWaitList.length < tbl.queueCapacity)))
      (a.setNode i { s.nodes i with queued := true }) := Rep.check hflag (decide_eq_true hlen')
  have hpark := hcheck.setParked (i :: a.expensiveWaitList)
  rw [h.nodes] at hpark
  have hlist : ((s.flagQueued i).check .parkExpensiveNode
    (decide (s.expensiveWaitList.length < tbl.queueCapacity))).expensiveWaitList =
      a.expensiveWaitList := hcheck.parked
  rw [← hlist] at hpark
  rw [← hlist]
  exact hpark

theorem unparkExpensiveNode (h : Rep tbl s a) (hinv : Spec.NodeInv tbl cfg a) (hsched : Spec.Sched tbl a)
    (sleeper : Option Nat) :
    Rep tbl (State.unparkExpensiveNode tbl s sleeper) a.unpark := by
  unfold State.unparkExpensiveNode Spec.State.unpark
  rw [h.parked]
  cases hlist : a.expensiveWaitList with
  | nil => exact h
  | cons j rest =>
    have hmem : j ∈ a.expensiveWaitList := by simp [hlist]
    have hj := hinv.parked_lt j hmem
    have hnode := hinv.node j hj
    obtain ⟨hq, ha⟩ := hnode.parked_iff.mp hmem
    have hprogress := hnode.parked_progress hq ha
    have hring : j ∉ a.ring := by simp [hnode.ring_iff, ha]
    have hflags := ((h.setParked rest).setNode j { a.nodes j with queued := false }).setNode j
      { a.nodes j with queued := false, active := false }
    have hpush := hflags.enqueue hj ?_ (by simp) (by simp) (by simp [Spec.State.Completed, hprogress])
      (hsched.parked_pass hinv hmem).1 (length_lt_of_nodup (List.nodup_cons.mpr ⟨hring, hinv.ring_nodup⟩) ?_)
    · have hstate : (({ a with expensiveWaitList := rest }.setNode j { a.nodes j with queued := false }).setNode j
          { a.nodes j with queued := false, active := false }).push j =
          { a with
            expensiveWaitList := rest
            ring := a.ring ++ [j]
            nodes := Function.update a.nodes j { a.nodes j with active := false } } := by
        simp only [Spec.State.push, Spec.State.setNode, Function.update_idem, Function.update_self, hq]
      rw [hstate] at hpush
      have hrep := hpush.condSignal sleeper
      simpa only [State.check, State.flagUnqueued, State.flagInactive, State.setNode_nodes, Function.update_self,
        h.nodes, hq,
        if_true] using hrep
    · intro d hd
      have hdone := hsched.ready j hj (by simp [hprogress]) (by simp [hprogress]) d hd
      have hdj : d ≠ j := by
        rintro rfl
        simp [Spec.State.Completed, hprogress] at hdone
      simpa [Spec.State.Completed, hdj] using hdone
    · intro w hw
      rcases List.mem_cons.mp hw with rfl | hw
      · exact hj
      · exact hinv.ring_lt w hw

theorem releaseExpensive (h : Rep tbl s a) (hinv : Spec.NodeInv tbl cfg a) (hsched : Spec.Sched tbl a) (i : Nat)
    (sleeper : Option Nat) : Rep tbl (State.releaseExpensive tbl s i sleeper) (a.release tbl i) := by
  unfold State.releaseExpensive Spec.State.release
  split
  · have hcount : Rep tbl { s with expensiveRunning := s.expensiveRunning - 1 }
      { a with expensiveRunning := a.expensiveRunning - 1 } :=
      ⟨by rw [← h.spec]; rfl, h.read_lt, h.write_lt, h.checks⟩
    have hinv' : Spec.NodeInv tbl cfg { a with expensiveRunning := a.expensiveRunning - 1 } :=
      hinv.of_eq rfl rfl rfl rfl
    have hsched' : Spec.Sched tbl { a with expensiveRunning := a.expensiveRunning - 1 } :=
      hsched.of_eq rfl rfl rfl rfl rfl
    exact hcount.check_expensiveRunning.unparkExpensiveNode hinv' hsched' sleeper
  · exact h

/-! ### Dependencies and waiters -/

/-- A dependency of a node at work that is not completed is already somewhere. -/
theorem dependency_somewhere (hinv : Spec.NodeInv tbl cfg a) (hsched : Spec.Sched tbl a) (hheld : a.Held t i) {d : Nat}
    (hd : d ∈ tbl.deps i) (hopen : ¬ a.Completed d) :
    (a.nodes d).queued = true ∨ (a.nodes d).active = true ∨ (a.nodes d).progress = .blocked := by
  have hi := hinv.held_lt t i hheld
  have hdlt := NodeTable.lt_of_mem_deps hd
  have hcurrent := (hsched.held_pass t i hheld).symm
  have hpass : tbl.pass d = tbl.pass i := by
    rcases Nat.lt_or_eq_of_le (NodeTable.pass_le_of_mem_deps hi hd) with hlt | heq
    · exact absurd (hsched.early _ hcurrent d hdlt hlt).1 hopen
    · exact heq
  have htouched := hsched.begun _ hcurrent d hdlt hpass
  by_contra hnone
  simp only [not_or, Bool.not_eq_true] at hnone
  obtain ⟨hq, ha, hblocked⟩ := hnone
  rcases (hinv.node d hdlt).idle_progress hq ha with hp | hp
  · exact htouched ⟨hq, ha, hp⟩
  · exact hblocked hp

/-- The loop of `SetupDependencies` only counts: there is nothing left for it to enqueue. -/
theorem foldl_setupDependency (h : Rep tbl s a) (hinv : Spec.NodeInv tbl cfg a) (hsched : Spec.Sched tbl a)
    (hheld : a.Held t i) (links : List Nat) (hlinks : ∀ d ∈ links, d ∈ (tbl.data i).dependencies) (waits : Nat) :
    ∃ k, links.foldl (State.setupDependency tbl i) (s, waits, 0) = (s, waits + k, 0) ∧
      (k = 0 ↔ ∀ d ∈ links.filterMap tbl.getStateForNode, a.Completed d) := by
  have hi := hinv.held_lt t i hheld
  induction links generalizing waits with
  | nil => exact ⟨0, rfl, by simp⟩
  | cons link links ih =>
      have hlink := hlinks link (List.mem_cons_self ..)
      obtain ⟨d, hremap⟩ := Option.isSome_iff_exists.mp (tbl.closed i hi link hlink)
      have hstate : tbl.getStateForNode link = some d := hremap
      have hd : d ∈ tbl.deps i := List.mem_filterMap.mpr ⟨link, hlink, hstate⟩
      have hpass := NodeTable.pass_le_of_mem_deps hi hd
      have hrest : ∀ d ∈ links, d ∈ (tbl.data i).dependencies := fun d hd => hlinks d (List.mem_cons_of_mem _ hd)
      by_cases hdone : (a.nodes d).progress = .completed
      · obtain ⟨k, hfold, hk⟩ := ih hrest waits
        refine ⟨k, ?_, ?_⟩
        · simpa only [List.foldl_cons, State.setupDependency, hstate, State.check, hpass, decide_true, if_true,
            h.nodes, hdone]
            using hfold
        · simp only [List.filterMap_cons, hstate, List.forall_mem_cons]
          rw [hk]
          exact ⟨fun hall => ⟨hdone, hall⟩, fun hall => hall.2⟩
      · obtain ⟨k, hfold, -⟩ := ih hrest (waits + 1)
        have hidle : (!(a.nodes d).queued && !(a.nodes d).active && decide ((a.nodes d).progress ≠ .blocked)) =
          false := by
          rcases dependency_somewhere hinv hsched hheld hd hdone with hq | ha | hp
          · simp [hq]
          · simp [ha]
          · simp [hp]
        refine ⟨1 + k, ?_, ?_⟩
        · simpa only [List.foldl_cons, State.setupDependency, hstate, State.check, hpass, decide_true, if_true,
            h.nodes, hdone,
            if_false, hidle, Bool.false_eq_true, Nat.add_assoc] using hfold
        · simp only [List.filterMap_cons, hstate, List.forall_mem_cons]
          refine iff_of_false (by omega) fun hall => hdone hall.1

theorem setupDependencies (h : Rep tbl s a) (hinv : Spec.NodeInv tbl cfg a) (hsched : Spec.Sched tbl a)
    (hheld : a.Held t i) (sleeper : Option Nat) :
    (State.setupDependencies tbl s i sleeper = (s, .unblocked) ∧ a.Ready tbl i) ∨
      (State.setupDependencies tbl s i sleeper = (s, .blocked) ∧ ¬ a.Ready tbl i) := by
  obtain ⟨k, hfold, hk⟩ := h.foldl_setupDependency hinv hsched hheld _ (fun _ hd => hd) 0
  have hready : k = 0 ↔ a.Ready tbl i := hk
  by_cases hzero : k = 0
  · left
    subst hzero
    refine ⟨?_, hready.mp rfl⟩
    simp only [State.setupDependencies, hfold]
    rfl
  · right
    refine ⟨?_, fun hr => hzero (hready.mpr hr)⟩
    have hpos : 0 + k > 0 := by omega
    simp only [State.setupDependencies, hfold, hpos, if_true]
    rfl

theorem pushAll_ready {ws : List Nat} : (a.pushAll ws).Ready tbl i ↔ a.Ready tbl i := by
  have hdone : ∀ d, (a.pushAll ws).Completed d ↔ a.Completed d := by
    intro d
    by_cases hd : d ∈ ws <;> simp [Spec.State.Completed, Spec.State.pushAll, Spec.State.queueAll, hd]
  simp only [Spec.State.Ready, hdone]

theorem pushAll_push {ws : List Nat} {w : Nat} (hw : w ∉ ws) : (a.pushAll ws).push w = a.pushAll (ws ++ [w]) := by
  have hnodes : Function.update (Spec.State.queueAll a.nodes ws) w
    { Spec.State.queueAll a.nodes ws w with queued := true } =
      Spec.State.queueAll a.nodes (ws ++ [w]) := by
    funext j
    by_cases hj : j = w
    · subst hj
      simp [Spec.State.queueAll, hw]
    · simp [Spec.State.queueAll, hj]
  simp only [Spec.State.push, Spec.State.pushAll, hnodes, List.append_assoc]

theorem foldl_unblockWaiter (hinv : Spec.NodeInv tbl cfg a) (links : List Nat) {ws : List Nat}
    (h : Rep tbl s (a.pushAll ws)) (hnodup : ws.Nodup) (hws : ∀ w ∈ ws, w < tbl.maxNodes ∧ a.Wakes tbl w)
    (count : Nat) :
    ∃ s' ws' n, links.foldl (State.unblockWaiter tbl) (s, count) = (s', n) ∧ Rep tbl s' (a.pushAll ws') ∧ ws'.Nodup ∧
      ∀ w, w ∈ ws' ↔ w ∈ ws ∨ (w ∈ links.filterMap tbl.getStateForNode ∧ a.Wakes tbl w) := by
  induction links generalizing s ws count with
  | nil => exact ⟨s, ws, count, rfl, h, hnodup, by simp⟩
  | cons link links ih =>
      rw [List.foldl_cons]
      cases hremap : tbl.getStateForNode link with
      | none =>
          obtain ⟨s', ws', n, hfold, hrep, hnodup', hws'⟩ := ih h hnodup hws count
          refine ⟨s', ws', n, ?_, hrep, hnodup', by simpa only [List.filterMap_cons, hremap] using hws'⟩
          simpa only [State.unblockWaiter, hremap] using hfold
      | some w =>
          have hw := (tbl.mmapData_remap link w hremap).1
          simp only [List.filterMap_cons, hremap, List.mem_cons]
          by_cases hwake : a.Wakes tbl w ∧ w ∉ ws
          · obtain ⟨⟨hpass, hready, hq, ha⟩, hnew⟩ := hwake
            have hnodes : (a.pushAll ws).nodes w = a.nodes w := by simp [Spec.State.pushAll, Spec.State.queueAll, hnew]
            have hopen : ¬ (a.pushAll ws).Completed w := by
              rw [Spec.State.Completed, hnodes]
              intro hdone
              have := ((hinv.node w hw).done_flags hdone).2
              simp [ha] at this
            have hring : w ∉ a.ring := by simp [(hinv.node w hw).ring_iff, hq]
            have hroom : (a.ring ++ ws).length < tbl.maxNodes := by
              refine length_lt_of_nodup (i := w) (List.nodup_cons.mpr ⟨by simp [hring, hnew], ?_⟩) ?_
              · refine hinv.ring_nodup.append hnodup fun j hj hjw => ?_
                have hq' := ((hinv.node j (hws j hjw).1).ring_iff.mp hj).1
                simp [(hws j hjw).2.2.2.1] at hq'
              · intro j hj
                rcases List.mem_cons.mp hj with rfl | hj
                · exact hw
                · rcases List.mem_append.mp hj with hj | hj
                  · exact hinv.ring_lt j hj
                  · exact (hws j hj).1
            have hpush := h.enqueue hw (pushAll_ready.mpr hready) (by rw [hnodes, hq]) (by rw [hnodes, ha]) hopen
              hpass hroom
            rw [pushAll_push hnew] at hpush
            obtain ⟨s', ws', n, hfold, hrep, hnodup', hws'⟩ := ih hpush
              (hnodup.append (List.nodup_singleton w) (by simpa using hnew))
              (fun j hj => by
                rcases List.mem_append.mp hj with hj | hj
                · exact hws j hj
                · rw [List.mem_singleton.mp hj]
                  exact ⟨hw, hpass, hready, hq, ha⟩) (count + 1)
            refine ⟨s', ws', n, ?_, hrep, hnodup', fun j => ?_⟩
            · have hcurrent : ¬ some (tbl.pass w) ≠ s.currentPassIndex := by
                rw [h.pass, not_not]
                exact hpass
              rw [State.unblockWaiter, hremap]
              simp only [hcurrent, if_false, (h.allDependenciesReady_iff hw).mpr (pushAll_ready.mpr hready),
                Bool.not_true,
                Bool.false_eq_true, h.nodes, hnodes, hq, ha, Bool.or_self]
              exact hfold
            · rw [hws', List.mem_append, List.mem_singleton]
              constructor
              · rintro ((hj | rfl) | hj)
                · exact .inl hj
                · exact .inr ⟨.inl rfl, hpass, hready, hq, ha⟩
                · exact .inr ⟨.inr hj.1, hj.2⟩
              · rintro (hj | ⟨rfl | hj, hwake⟩)
                · exact .inl (.inl hj)
                · exact .inl (.inr rfl)
                · exact .inr ⟨hj, hwake⟩
          · obtain ⟨s', ws', n, hfold, hrep, hnodup', hws'⟩ := ih h hnodup hws count
            refine ⟨s', ws', n, ?_, hrep, hnodup', fun j => ?_⟩
            · have hskip : State.unblockWaiter tbl (s, count) link = (s, count) := by
                rw [State.unblockWaiter, hremap]
                simp only
                split_ifs with h1 h2 h3
                · rfl
                · rfl
                · rfl
                · exfalso
                  apply hwake
                  simp only [Bool.not_eq_true', Bool.not_eq_false, h.allDependenciesReady_iff hw, pushAll_ready] at h2
                  simp only [ne_eq, not_not, h.pass] at h1
                  simp only [h.nodes, Bool.or_eq_true, not_or, Bool.not_eq_true] at h3
                  have hnew : w ∉ ws := by
                    intro hmem
                    simp [Spec.State.pushAll, Spec.State.queueAll, hmem] at h3
                  simp only [Spec.State.pushAll, Spec.State.queueAll, hnew, if_false] at h3
                  exact ⟨⟨h1, h2, h3.1, h3.2⟩, hnew⟩
              rw [hskip]
              exact hfold
            · rw [hws']
              constructor
              · rintro (hj | hj)
                · exact .inl hj
                · exact .inr ⟨.inr hj.1, hj.2⟩
              · rintro (hj | ⟨rfl | hj, hwakes⟩)
                · exact .inl hj
                · by_contra hnot
                  exact hwake ⟨hwakes, fun hmem => hnot (.inl hmem)⟩
                · exact .inr ⟨hj, hwakes⟩

theorem unblockWaiters (h : Rep tbl s a) (hinv : Spec.NodeInv tbl cfg a) (i : Nat) (sleeper : Option Nat) :
    ∃ ws, Rep tbl (State.unblockWaiters tbl s i sleeper) (a.pushAll ws) ∧ ws.Nodup ∧
      ∀ w, w ∈ ws ↔ w ∈ tbl.waiters i ∧ a.Wakes tbl w := by
  have hnone : Rep tbl s (a.pushAll []) := by
    have : a.pushAll [] = a := by simp [Spec.State.pushAll]
    rwa [this]
  obtain ⟨s', ws, n, hfold, hrep, hnodup, hws⟩ :=
    foldl_unblockWaiter hinv (tbl.data i).backLinks hnone List.nodup_nil (by simp) 0
  refine ⟨ws, ?_, hnodup, fun w => ?_⟩
  · simp only [State.unblockWaiters, hfold]
    split
    · exact hrep.wakeWaiters n sleeper
    · exact hrep
  · rw [hws]
    simp [NodeTable.waiters]

/-! ### The beginning of a pass -/

theorem queueRange_eq (start count : Nat) (hinitial : ∀ k < count, (s.nodes (start + k)).progress = .initial) :
    State.queueRange s start count =
      { s with
        queue := fun k => if k < count then start + k else s.queue k
        nodes := Spec.State.queueAll s.nodes ((List.range count).map (start + ·)) } := by
  induction count with
  | zero => simp [State.queueRange]
  | succ n ih =>
      have hprev := ih fun k hk => hinitial k (by omega)
      rw [State.queueRange] at hprev ⊢
      rw [List.range_succ, List.foldl_append, hprev]
      have hcheck : decide ((s.nodes (start + n)).progress = .initial) = true := decide_eq_true (hinitial n (by omega))
      have hnode : Spec.State.queueAll s.nodes ((List.range n).map (start + ·)) (start + n) = s.nodes (start + n) := by
        simp [Spec.State.queueAll]
      have hqueue : Function.update (fun k => if k < n then start + k else s.queue k) n (start + n) =
          fun k => if k < n + 1 then start + k else s.queue k := by
        funext k
        by_cases hk : k = n
        · subst hk
          simp
        · rw [Function.update_of_ne hk]
          simp only [show k < n + 1 ↔ k < n by omega]
      have hnodes : Function.update (Spec.State.queueAll s.nodes ((List.range n).map (start + ·))) (start + n)
          { s.nodes (start + n) with queued := true } =
          Spec.State.queueAll s.nodes ((List.range n ++ [n]).map (start + ·)) := by
        funext j
        by_cases hj : j = start + n
        · subst hj
          simp [Spec.State.queueAll]
        · simp [Spec.State.queueAll, hj]
      simp only [List.foldl_cons, List.foldl_nil, State.flagQueued, State.check, State.setNode, Function.update_self,
        hnode,
        hcheck, if_true, hqueue, ← hnodes]

theorem beginPass {p : Nat} (h : Rep tbl s a) (hp : p < tbl.passCount)
    (hinitial : ∀ i < tbl.maxNodes, tbl.pass i = p → (a.nodes i).progress = .initial) :
    Rep tbl (State.beginPass tbl s (tbl.passStart p) (tbl.passNodeCount p) p) (a.beginPass tbl p) := by
  have hend : tbl.passStart p + tbl.passNodeCount p ≤ tbl.maxNodes := by
    rw [← NodeTable.passStart_succ]
    exact NodeTable.passStart_le_maxNodes hp
  have hcap := tbl.maxNodes_lt_queueCapacity
  have hrange : ∀ k < tbl.passNodeCount p, (s.nodes (tbl.passStart p + k)).progress = .initial := by
    intro k hk
    rw [h.nodes]
    have hmem := (Spec.mem_passRange hp).mp (List.mem_map.mpr ⟨k, List.mem_range.mpr hk, rfl⟩)
    exact hinitial _ hmem.1 hmem.2
  have hfill := queueRange_eq (s := { s with currentPassIndex := some p }) (tbl.passStart p) (tbl.passNodeCount p)
    hrange
  simp only [State.beginPass, State.check, hend, decide_true, if_true, hfill]
  have hpos : 0 < tbl.queueCapacity := by omega
  have hcount : tbl.passNodeCount p < tbl.queueCapacity := by omega
  refine ⟨?_, hpos, hcount, h.checks⟩
  have hring := Ring.contents_filled (fun k => if k < tbl.passNodeCount p then tbl.passStart p + k else s.queue k)
    hcount
  have hmap : (List.range (tbl.passNodeCount p)).map
    (fun k => if k < tbl.passNodeCount p then tbl.passStart p + k else s.queue k) =
      (List.range (tbl.passNodeCount p)).map (tbl.passStart p + ·) := by
    apply List.map_congr_left
    intro k hk
    rw [if_pos (List.mem_range.mp hk)]
  rw [← h.spec]
  simp only [State.spec, Spec.State.beginPass, hring, hmap]

/-! ### The steps of a thread -/

variable {c : Choice} {es : List Event}

theorem setProgress (h : Rep tbl s a) (i : Nat) (progress : BuildProgress) :
    Rep tbl (s.setProgress i progress) (a.setNode i { a.nodes i with progress := progress }) := by
  rw [State.setProgress, h.nodes]
  exact h.setNode i _

theorem shouldKeepBuilding_iff (h : Rep tbl s a) : State.shouldKeepBuilding cfg s t = true ↔ a.Keep cfg t := by
  rw [← h.spec]
  unfold State.shouldKeepBuilding Spec.State.Keep
  cases hsignal : s.signalReason with
  | some reason => simp [State.spec, hsignal]
  | none =>
      simp only [State.spec, hsignal, Option.isSome_none, Bool.false_eq_true, if_false, true_and]
      by_cases hfailed : 0 < s.failedNodeCount ∧ cfg.continueOnError = false
      · simp [hfailed.1, hfailed.2]
      · have hgo : (decide (s.failedNodeCount > 0) && !cfg.continueOnError) = false := by
          rw [← Bool.not_eq_true, Bool.and_eq_true, decide_eq_true_eq, Bool.not_eq_true']
          exact hfailed
        simp only [hgo, Bool.false_eq_true, if_false, hfailed, not_false_eq_true, true_and]
        cases s.quitSignalled
        · by_cases ht : t = 0 <;> simp [ht]
        · simp

theorem buildLoop (h : Rep tbl s a) (hinv : Spec.NodeInv tbl cfg a) (hpc : a.thread t = .loop) :
    ∃ a', Spec.ThreadStep tbl cfg a t c a' (State.buildLoop tbl cfg s t).2 ∧ Rep tbl
    (State.buildLoop tbl cfg s t).1 a' := by
  unfold State.buildLoop
  by_cases hkeep : a.Keep cfg t
  · rw [if_pos (h.shouldKeepBuilding_iff.mpr hkeep)]
    cases hring : a.ring with
    | nil =>
        rw [h.nextNode_nil hring]
        exact ⟨_, .sleep hpc hkeep hring, (h.setLock none).setThread t .asleep⟩
    | cons i rest =>
        have hmem : i ∈ a.ring := by simp [hring]
        have hi := hinv.ring_lt i hmem
        have hnode := hinv.node i hi
        obtain ⟨hq, ha⟩ := hnode.ring_iff.mp hmem
        have hopen : ¬ a.Completed i := fun hdone => by simp [(hnode.done_flags hdone).1] at hq
        obtain ⟨s', hnext, hrep⟩ := h.nextNode_cons hring hq ha
        rw [hnext]
        refine ⟨_, .dequeue hpc hkeep hring, Rep.setThread ?_ t (.advance i)⟩
        have hopen' : (a.nodes i).progress ≠ .completed := hopen
        simp only [State.check, hrep.nodes, Spec.State.setNode_nodes, Function.update_self, ne_eq, hopen',
          not_false_eq_true,
          decide_true, Bool.not_false, if_true]
        exact hrep
  · rw [if_neg (mt h.shouldKeepBuilding_iff.mp hkeep)]
    exact ⟨_, .exit hpc hkeep, (h.setLock none).setThread t .exited⟩

theorem runAction (h : Rep tbl s a) (hinv : Spec.NodeInv tbl cfg a) (hsched : Spec.Sched tbl a)
    (ht : t < cfg.threadCount) (hpc : a.thread t = .advance i) (hprogress : (a.nodes i).progress = .runAction)
    (sleeper : Option Nat) :
    ∃ a', Spec.ThreadStep tbl cfg a t c a' [] ∧ Rep tbl (State.runAction tbl cfg s t i sleeper) a' := by
  unfold State.runAction
  by_cases hempty : (tbl.data i).action.bytes = []
  · rw [if_pos hempty]
    obtain ⟨hinv', hsched'⟩ := Spec.advance_progress hinv hsched ht hpc (by simp [Spec.State.Completed, hprogress])
      (by simp [hprogress]) .succeeded (by simp)
    exact ⟨_, .runEmpty hpc hprogress hempty, (h.setProgress i .succeeded).releaseExpensive hinv' hsched' i sleeper⟩
  · rw [if_neg hempty]
    by_cases hexp : (tbl.data i).expensive = true
    · rw [if_pos hexp]
      by_cases hlimit : a.expensiveRunning = cfg.maxExpensiveCount
      · rw [if_pos (h.running.trans hlimit)]
        have hlen : a.expensiveWaitList.length < tbl.maxNodes := by
          have hheld := Spec.held_advance hpc
          refine length_lt_of_nodup (i := i) (List.nodup_cons.mpr ⟨hinv.not_mem_parked hheld, hinv.parked_nodup⟩)
            fun w hw => ?_
          rcases List.mem_cons.mp hw with rfl | hw
          · exact hinv.held_lt t w hheld
          · exact hinv.parked_lt w hw
        have hcap := tbl.maxNodes_lt_queueCapacity
        exact ⟨_, .park hpc hprogress hempty hexp hlimit, (h.parkExpensiveNode (by omega) i).setThread t .loop⟩
      · rw [if_neg (fun hrunning => hlimit (h.running.symm.trans hrunning))]
        refine ⟨_, .run hpc hprogress hempty fun _ => hlimit, Rep.setThread (Rep.setLock ?_ none) t (.prepare i)⟩
        refine ⟨?_, h.read_lt, h.write_lt, h.checks⟩
        rw [hexp, ← h.spec]
        rfl
    · rw [if_neg hexp]
      refine ⟨_, .run hpc hprogress hempty fun hexp' => absurd hexp' hexp,
        Rep.setThread (Rep.setLock ?_ none) t (.prepare i)⟩
      simpa only [hexp, if_false, add_zero, Bool.false_eq_true] using h

theorem advanceNode (h : Rep tbl s a) (hinv : Spec.NodeInv tbl cfg a) (hsched : Spec.Sched tbl a)
    (ht : t < cfg.threadCount) (hpc : a.thread t = .advance i) (sleeper : Option Nat) :
    ∃ a', Spec.ThreadStep tbl cfg a t c a' (State.advanceNode tbl cfg s t i sleeper).2 ∧
      Rep tbl (State.advanceNode tbl cfg s t i sleeper).1 a' := by
  have hheld := Spec.held_advance hpc
  have hi := hinv.held_lt t i hheld
  have hready : (a.nodes i).progress ≠ .initial → State.allDependenciesReady tbl s i = true := fun hp =>
    (h.allDependenciesReady_iff hi).mpr (hsched.ready_held hinv hheld hp)
  have hnode : s.nodes i = a.nodes i := by rw [h.nodes]
  unfold State.advanceNode
  rw [show (s.nodes i).progress = (a.nodes i).progress by rw [hnode]]
  cases hprogress : (a.nodes i).progress with
  | initial =>
      rcases h.setupDependencies hinv hsched hheld sleeper with ⟨hsetup, hdeps⟩ | ⟨hsetup, hdeps⟩
      · simp only [hsetup, reduceCtorEq, if_false]
        exact ⟨_, .unblock hpc (.inl hprogress) hdeps, h.setProgress i .unblocked⟩
      · simp only [hsetup, if_true]
        refine ⟨_, .block hpc hprogress hdeps, Rep.setThread ?_ t .loop⟩
        have hrep := (h.setProgress i .blocked).setNode i { a.nodes i with progress := .blocked, active := false }
        simpa only [State.flagInactive, State.setProgress, State.setNode_nodes, Function.update_self,
          Spec.State.setNode,
          Function.update_idem, h.nodes] using hrep
  | blocked =>
      have hdeps := hready (by simp [hprogress])
      exact ⟨_, .unblock hpc (.inr hprogress) ((h.allDependenciesReady_iff hi).mp hdeps),
        (h.check hdeps).setProgress i .unblocked⟩
  | unblocked =>
      have hdeps := hready (by simp [hprogress])
      exact ⟨_, .enterCheck hpc hprogress, ((h.check hdeps).setLock none).setThread t (.checkInput i)⟩
  | runAction => exact h.runAction hinv hsched ht hpc hprogress sleeper
  | succeeded => exact ⟨_, .succeed hpc (.inl hprogress), hnode ▸ h.setNode i _⟩
  | upToDate => exact ⟨_, .succeed hpc (.inr hprogress), hnode ▸ h.setNode i _⟩
  | failed =>
      have hcount : Rep tbl { s with failedNodeCount := s.failedNodeCount + 1 }
        { a with failedNodeCount := a.failedNodeCount + 1 } :=
        ⟨by rw [← h.spec]; rfl, h.read_lt, h.write_lt, h.checks⟩
      exact ⟨_, .fail hpc hprogress,
        hnode ▸ hcount.condBroadcast.setNode i { s.nodes i with buildResult := 1, progress := .completed }⟩
  | completed =>
      have hcount : Rep tbl { s with pendingNodeCount := s.pendingNodeCount - 1 }
          { a with pendingNodeCount := a.pendingNodeCount - 1 } :=
            ⟨by rw [← h.spec]; rfl, h.read_lt, h.write_lt, h.checks⟩
      have hinv' : Spec.NodeInv tbl cfg { a with pendingNodeCount := a.pendingNodeCount - 1 } :=
        hinv.of_eq rfl rfl rfl rfl
      obtain ⟨ws, hrep, hnodup, hws⟩ := hcount.unblockWaiters hinv' i sleeper
      exact ⟨_, .complete hpc hprogress hnodup hws, hrep.condBroadcast.setThread t .loop⟩

theorem finishAction {result : Option ExecResult} (h : Rep tbl s a) (hinv : Spec.NodeInv tbl cfg a)
    (hsched : Spec.Sched tbl a) (ht : t < cfg.threadCount) (hpc : a.thread t = .relock i result)
    (hlock : a.lock = none) (sleeper : Option Nat) :
    ∃ a', Spec.ThreadStep tbl cfg a t c a' [] ∧
      Rep tbl (State.finishAction tbl ((s.setLock (some t)).setThread t (.advance i)) i result sleeper) a' := by
  have hback := (h.setLock (some t)).setThread t (.advance i)
  obtain ⟨hinv', hsched'⟩ := Spec.relock_progress hinv hsched ht hpc
  refine ⟨_, .finishAction hpc hlock, ?_⟩
  cases result with
  | none => exact (hback.setProgress i .failed).releaseExpensive hinv' hsched' i sleeper
  | some r =>
      by_cases hsignalled : r.wasSignalled = true
      · have hrep := (hback.signalSet "child processes signalled").setProgress i
          (if r.returnCode = 0 then .succeeded else .failed)
        simp only [State.finishAction, Spec.State.childSignal, Spec.State.childReason, Spec.State.exitProgress,
          hsignalled, if_true]
          at hinv' hsched' ⊢
        exact hrep.releaseExpensive hinv' hsched' i sleeper
      · have hrep := hback.setProgress i (if r.returnCode = 0 then .succeeded else .failed)
        simp only [State.finishAction, Spec.State.childSignal, Spec.State.childReason, Spec.State.exitProgress,
          hsignalled,
          Bool.false_eq_true, if_false] at hinv' hsched' ⊢
        exact hrep.releaseExpensive hinv' hsched' i sleeper

theorem threadStep (h : Rep tbl s a) (hinv : Spec.NodeInv tbl cfg a) (hsched : Spec.Sched tbl a)
    (ht : t < cfg.threadCount) (hstep : State.threadStep tbl cfg s t c = some (s', es)) :
    ∃ a', Spec.ThreadStep tbl cfg a t c a' es ∧ Rep tbl s' a' := by
  have hthread := h.thread t
  unfold State.threadStep at hstep
  cases hpc : s.thread t with
  | start =>
      simp only [hpc] at hstep hthread
      split at hstep
      · next hlock =>
        obtain ⟨rfl, rfl⟩ := Prod.mk.inj (Option.some.inj hstep)
        exact ⟨_, .acquire hthread (h.lock.symm.trans hlock), (h.setLock (some t)).setThread t .loop⟩
      · cases hstep
  | waking =>
      simp only [hpc] at hstep hthread
      split at hstep
      · next hlock =>
        obtain ⟨rfl, rfl⟩ := Prod.mk.inj (Option.some.inj hstep)
        exact ⟨_, .acquire hthread (h.lock.symm.trans hlock), (h.setLock (some t)).setThread t .loop⟩
      · cases hstep
  | asleep =>
      simp only [hpc] at hstep hthread
      obtain ⟨rfl, rfl⟩ := Prod.mk.inj (Option.some.inj hstep)
      refine ⟨a, .idle hthread, h.of_quiet fun u => ?_⟩
      by_cases hut : u = t
      · subst hut
        rw [Function.update_self, hpc]
        rfl
      · rw [Function.update_of_ne hut]
  | exited => simp [hpc] at hstep
  | loop =>
      simp only [hpc, Option.some.injEq] at hstep hthread
      have hloop := h.buildLoop (c := c) hinv hthread
      rwa [hstep] at hloop
  | advance i =>
      simp only [hpc, Option.some.injEq] at hstep hthread
      have hadvance := h.advanceNode (c := c) hinv hsched ht hthread c.sleeper
      rwa [hstep] at hadvance
  | checkInput i =>
      simp only [hpc] at hstep hthread
      split at hstep
      · next hlock =>
        obtain ⟨rfl, rfl⟩ := Prod.mk.inj (Option.some.inj hstep)
        refine ⟨_, .finishCheck hthread (h.lock.symm.trans hlock), ?_⟩
        have hnode : s.nodes i = a.nodes i := by rw [h.nodes]
        rw [hnode]
        exact ((h.setNode i _).setLock (some t)).setThread t (.advance i)
      · cases hstep
  | prepare i =>
      simp only [hpc] at hstep hthread
      unfold State.launch at hstep
      split at hstep
      · next hdirs =>
        split at hstep
        · next hpre =>
          obtain ⟨rfl, rfl⟩ := Prod.mk.inj (Option.some.inj hstep)
          exact ⟨_, .launchPre hthread hdirs hpre, h.setThread t (.preAction i)⟩
        · next hpre =>
          obtain ⟨rfl, rfl⟩ := Prod.mk.inj (Option.some.inj hstep)
          exact ⟨_, .launch hthread hdirs (by simpa using hpre), h.setThread t (.action i)⟩
      · next hdirs =>
        obtain ⟨rfl, rfl⟩ := Prod.mk.inj (Option.some.inj hstep)
        exact ⟨_, .noDirectories hthread (by simpa using hdirs), h.setThread t (.relock i none)⟩
  | preAction i =>
      simp only [hpc] at hstep hthread
      split at hstep
      · next hcode =>
        obtain ⟨rfl, rfl⟩ := Prod.mk.inj (Option.some.inj hstep)
        exact ⟨_, .launchAfterPre hthread hcode, h.setThread t (.action i)⟩
      · next hcode =>
        obtain ⟨rfl, rfl⟩ := Prod.mk.inj (Option.some.inj hstep)
        exact ⟨_, .preFailed hthread hcode, h.setThread t (.relock i (some c.execResult))⟩
  | action i =>
      simp only [hpc] at hstep hthread
      obtain ⟨rfl, rfl⟩ := Prod.mk.inj (Option.some.inj hstep)
      exact ⟨_, .actionDone hthread, h.setThread t (.relock i (some c.execResult))⟩
  | relock i result =>
      simp only [hpc] at hstep hthread
      split at hstep
      · next hlock =>
        obtain ⟨rfl, rfl⟩ := Prod.mk.inj (Option.some.inj hstep)
        exact h.finishAction hinv hsched ht hthread (h.lock.symm.trans hlock) c.sleeper
      · cases hstep

theorem driverStep (h : Rep tbl s a) (hinv : Spec.Inv tbl cfg a) (hstep : State.driverStep tbl cfg s = some s') :
    ∃ a', Spec.DriverStep tbl cfg a a' ∧ Rep tbl s' a' := by
  have hquiet : ∀ t, a.thread t = .exited ↔ s.thread t = .exited := by
    intro t
    rw [h.thread t]
    cases s.thread t <;> simp [ThreadPc.quiet]
  have hsignal : s.signalReason = a.signalReason := by rw [← h.spec]; rfl
  have hfailed : s.failedNodeCount = a.failedNodeCount := by rw [← h.spec]; rfl
  unfold State.driverStep at hstep
  have hdriver := h.driver
  cases hpc : s.driver with
  | passLoop p r =>
      rw [hpc] at hdriver
      simp only [hpc] at hstep
      split at hstep
      · next hgo =>
        obtain ⟨rfl, hp⟩ := hgo
        split at hstep
        · next hlock =>
          obtain rfl := Option.some.inj hstep
          refine ⟨_, .beginPass hdriver.symm hp (h.lock.symm.trans hlock),
            (h.beginPass hp fun i hi hpass => ?_).setDriver (.wake p)⟩
          have hok := hinv.driver
          rw [← hdriver] at hok
          refine (hinv.sched.late i hi fun q hq => ?_).2.2
          have := (hok.2.2.pass q).mp hq
          omega
        · cases hstep
      · next hend =>
        obtain rfl := Option.some.inj hstep
        exact ⟨_, .leave hdriver.symm hend, h.setDriver (.destroy r)⟩
  | wake p =>
      rw [hpc] at hdriver
      simp only [hpc, Option.some.injEq] at hstep
      subst hstep
      exact ⟨_, .wake hdriver.symm, (h.condBroadcast.setThread 0 .start).setDriver (.loop p)⟩
  | loop p =>
      rw [hpc] at hdriver
      simp only [hpc] at hstep
      have hseen : Rep tbl { s with signalSeen := s.signalReason } { a with signalSeen := a.signalReason } :=
        ⟨by rw [← h.spec]; rfl, h.read_lt, h.write_lt, h.checks⟩
      split at hstep
      · next hexit =>
        split at hstep
        · next hset =>
          obtain rfl := Option.some.inj hstep
          refine ⟨_, .interrupted hdriver.symm ((hquiet 0).mpr hexit) ?_,
            hseen.setDriver (.passLoop (p + 1) .interrupted)⟩
          rw [← hsignal]
          exact Option.isSome_iff_ne_none.mp hset
        · next hset =>
          obtain rfl := Option.some.inj hstep
          refine ⟨_, .noSignal hdriver.symm ((hquiet 0).mpr hexit) ?_, hseen.setDriver (.readFailed p)⟩
          rw [← hsignal]
          exact Option.not_isSome_iff_eq_none.mp hset
      · cases hstep
  | readFailed p =>
      rw [hpc] at hdriver
      simp only [hpc, Option.some.injEq] at hstep
      subst hstep
      rw [hfailed]
      exact ⟨_, .readFailed hdriver.symm, h.setDriver _⟩
  | destroy r =>
      rw [hpc] at hdriver
      simp only [hpc] at hstep
      split at hstep
      · next hlock =>
        obtain rfl := Option.some.inj hstep
        have hquit : Rep tbl { s with quitSignalled := true } { a with quitSignalled := true } :=
          ⟨by rw [← h.spec]; rfl, h.read_lt, h.write_lt, h.checks⟩
        exact ⟨_, .destroy hdriver.symm (h.lock.symm.trans hlock), hquit.setDriver (.destroyWake r)⟩
      · cases hstep
  | destroyWake r =>
      rw [hpc] at hdriver
      simp only [hpc, Option.some.injEq] at hstep
      subst hstep
      exact ⟨_, .destroyWake hdriver.symm, h.condBroadcast.setDriver (.join r)⟩
  | join r =>
      rw [hpc] at hdriver
      simp only [hpc] at hstep
      split at hstep
      · next hjoin =>
        obtain rfl := Option.some.inj hstep
        refine ⟨_, .join hdriver.symm fun t ht hzero => (hquiet t).mpr ?_, h.setDriver (.done r)⟩
        have := List.all_eq_true.mp hjoin t (List.mem_range.mpr ht)
        exact (of_decide_eq_true this).resolve_left hzero
      · cases hstep
  | done r => simp [hpc] at hstep

end Rep

/-- Every step of the source's machine is a step of the abstract one. -/
theorem step_refines {act : Action} {es : List Event} (h : Rep tbl s a) (hinv : Spec.Inv tbl cfg a)
    (hstep : State.step tbl cfg s act = some (s', es)) : ∃ a', Spec.Step tbl cfg a act a' es ∧ Rep tbl s' a' := by
  cases act with
  | thread t c =>
      simp only [State.step] at hstep
      split at hstep
      · next ht =>
        obtain ⟨a', hspec, hrep⟩ := h.threadStep hinv.node hinv.sched ht hstep
        exact ⟨a', .thread ht hspec, hrep⟩
      · cases hstep
  | signal reason =>
      obtain ⟨rfl, rfl⟩ := Prod.mk.inj (Option.some.inj hstep)
      exact ⟨_, .signal reason, h.signalSet reason⟩
  | driver =>
      obtain ⟨s₁, hdriver, heq⟩ := Option.map_eq_some_iff.mp hstep
      obtain ⟨rfl, rfl⟩ := Prod.mk.inj heq
      obtain ⟨a', hspec, hrep⟩ := h.driverStep hinv hdriver
      exact ⟨a', .driver hspec, hrep⟩

/-! ### Runs -/

theorem init_spec (tbl : NodeTable) (cfg : Config) : Rep tbl (.init cfg) ((State.init cfg).spec tbl) ∧
    ((State.init cfg).spec tbl).ring = [] := by
  have hpos : 0 < tbl.queueCapacity := by
    have := tbl.maxNodes_lt_queueCapacity
    omega
  refine ⟨⟨rfl, hpos, hpos, by simp [State.init]⟩, Ring.contents_self _ hpos⟩

theorem init_idle (tbl : NodeTable) (cfg : Config) (t : Nat) :
    (((State.init cfg).spec tbl).thread t).node? = none ∧ (((State.init cfg).spec tbl).thread t).holdsLock = false := by
  simp only [State.spec, State.init]
  split <;> exact ⟨rfl, rfl⟩

theorem Spec.Inv.init (tbl : NodeTable) (cfg : Config) : Spec.Inv tbl cfg ((State.init cfg).spec tbl) := by
  have hring := (init_spec tbl cfg).2
  have hnobody : ∀ t i, ¬ ((State.init cfg).spec tbl).Held t i := by
    intro t i hheld
    rw [Spec.State.Held, (init_idle tbl cfg t).1] at hheld
    cases hheld
  refine ⟨⟨?_, ?_, List.nodup_nil, by simp [State.spec, State.init], fun t i hheld => absurd hheld (hnobody t i), ?_,
    ?_⟩, ?_, ?_, ?_, ?_⟩
  · rw [hring]
    exact List.nodup_nil
  · simp [hring]
  · intro t ht
    simp only [State.spec, State.init, show ¬ (0 < t ∧ t < cfg.threadCount) by omega, if_false]
    rfl
  · intro i hi
    refine ⟨by rw [hring]; simp [State.spec, State.init, NodeState.fresh], by
      simp [State.spec, State.init, NodeState.fresh],
      fun t hheld => absurd hheld (hnobody t i), fun t _ hheld => absurd hheld (hnobody t i),
      by simp [State.spec, State.init, NodeState.fresh], by simp [State.spec, State.init, NodeState.fresh,
        Spec.State.Completed],
      by simp [State.spec, State.init, NodeState.fresh], by simp [State.spec, State.init, NodeState.fresh],
      by simp [State.spec, State.init, NodeState.fresh], by simp [State.spec, State.init, NodeState.fresh], ?_, ?_⟩
    · intro t ht
      exact absurd (by rw [Spec.State.Held, ht]; rfl) (hnobody t i)
    · intro t ht
      exact absurd (Spec.node?_of_running? ht) (hnobody t i)
  · have hopen : ∀ i, ¬ ((State.init cfg).spec tbl).Completed i := by
      simp [Spec.State.Completed, State.spec, State.init, NodeState.fresh]
    refine ⟨by simp [State.spec, State.init, NodeState.fresh], by simp [State.spec, State.init],
      by simp [Spec.State.Untouched, State.spec, State.init, NodeState.fresh], by simp [State.spec, State.init],
      by simp [State.spec, State.init, NodeState.fresh], ?_, ?_, by simp [State.spec, State.init, NodeState.fresh],
      fun t i hheld => absurd hheld (hnobody t i)⟩
    · have hset : Spec.openNodes tbl ((State.init cfg).spec tbl) = ∅ := by
        ext i
        simp [Spec.mem_openNodes, State.spec, State.init]
      rw [hset]
      rfl
    · have hset : Spec.failedNodes tbl ((State.init cfg).spec tbl) = ∅ := by
        ext i
        simp [Spec.mem_failedNodes, State.spec, State.init]
      rw [hset]
      rfl
  · intro t
    rw [(init_idle tbl cfg t).2]
    simp [State.spec, State.init]
  · simp [State.spec, State.init]
  · refine ⟨by simp [State.spec, State.init, ThreadPc.quiet], rfl, by simp [State.spec, State.init], ?_, by simp, by
      simp, by simp⟩
    exact fun _ => ⟨rfl, hnobody, by simp⟩

/-- The rule for runs: what the abstract machine keeps from its initial state on holds of what every reachable
state represents. -/
theorem reach_invariant {allowed : State → Action → Prop} {P : Spec.State → List Event → Prop} {tr : List Event}
    (hinit : P ((State.init cfg).spec tbl) [])
    (hkeep : ∀ s a tr act a' es, Rep tbl s a → Spec.Inv tbl cfg a → P a tr → allowed s act →
    Spec.Step tbl cfg a act a' es → P a' (tr ++ es))
    (hreach : Transition.Reach (buildSystem tbl cfg) allowed s tr) :
    ∃ a, Rep tbl s a ∧ Spec.Inv tbl cfg a ∧ P a tr := by
  refine Transition.Reach.invariant (P := fun s tr => ∃ a, Rep tbl s a ∧ Spec.Inv tbl cfg a ∧ P a tr) ?_ ?_ hreach
  · exact ⟨_, (init_spec tbl cfg).1, .init tbl cfg, hinit⟩
  · rintro s tr act s' es - ⟨a, hrep, hinv, hP⟩ hallowed hstep
    obtain ⟨a', hspec, hrep'⟩ := step_refines hrep hinv hstep
    exact ⟨a', hrep', hspec.inv hinv, hkeep s a tr act a' es hrep hinv hP hallowed hspec⟩

theorem reach_inv {allowed : State → Action → Prop} {tr : List Event}
    (hreach : Transition.Reach (buildSystem tbl cfg) allowed s tr) :
    Rep tbl s (s.spec tbl) ∧ Spec.Inv tbl cfg (s.spec tbl) := by
  obtain ⟨a, hrep, hinv, -⟩ :=
    reach_invariant (P := fun _ _ => True) trivial (fun _ _ _ _ _ _ _ _ _ _ _ => trivial) hreach
  rw [hrep.spec]
  exact ⟨hrep, hinv⟩

end Tundra
