import Tundra.Queue.Safety

/-!
# Expensive nodes

`m_ExpensiveRunning` is raised in `RunAction` behind the test for an empty action and lowered in `AdvanceNode`
without that test, so an expensive node with an empty action lowers it without ever having raised it. The
counter never exceeds the number of expensive nodes that run; it is equal to it, and the limit holds, as long as
no such node gets to `RunAction`.

The second half is about parked nodes: as long as one is parked, another expensive node is on its way to give up
its slot.
-/

namespace Tundra

namespace Spec

variable {tbl : NodeTable} {cfg : Config} {a a' : State} {i j t u : Nat} {c : Choice} {es : List Event} {act : Action}

open Classical in
/-- The expensive nodes past the limit test of `RunAction` and not yet released by `AdvanceNode`. -/
noncomputable def expensiveNodes (tbl : NodeTable) (a : State) : Finset Nat :=
  (Finset.range tbl.maxNodes).filter fun i => (tbl.data i).expensive = true ∧ ∃ t, (a.thread t).running? = some i

theorem mem_expensiveNodes : i ∈ expensiveNodes tbl a ↔
    i < tbl.maxNodes ∧ (tbl.data i).expensive = true ∧ ∃ t, (a.thread t).running? = some i := by
  simp [expensiveNodes]

/-- A thread about to run an expensive node without an action. -/
def RunsEmpty (tbl : NodeTable) (a : State) (t : Nat) : Prop :=
  ∃ i, a.thread t = .advance i ∧ (a.nodes i).progress = .runAction ∧ (tbl.data i).action.bytes = [] ∧
    (tbl.data i).expensive = true

/-- What a thread's step does to the counter and to the nodes it should count. -/
def ExpensiveStep (tbl : NodeTable) (cfg : Config) (t : Nat) (a a' : State) : Prop :=
  (a'.expensiveRunning = a.expensiveRunning ∧ expensiveNodes tbl a' = expensiveNodes tbl a) ∨
  (∃ i ∉ expensiveNodes tbl a, a.expensiveRunning ≠ cfg.maxExpensiveCount ∧
    a'.expensiveRunning = a.expensiveRunning + 1 ∧
    expensiveNodes tbl a' = insert i (expensiveNodes tbl a)) ∨
  (∃ i ∈ expensiveNodes tbl a, a'.expensiveRunning = a.expensiveRunning - 1 ∧
    expensiveNodes tbl a' = (expensiveNodes tbl a).erase i) ∨
  (RunsEmpty tbl a t ∧ a'.expensiveRunning = a.expensiveRunning - 1 ∧ expensiveNodes tbl a' = expensiveNodes tbl a)

theorem expensiveNodes_congr (h : ∀ i, (∃ u, (a'.thread u).running? = some i) ↔ ∃ u, (a.thread u).running? = some i) :
    expensiveNodes tbl a' = expensiveNodes tbl a := by
  ext i
  rw [mem_expensiveNodes, mem_expensiveNodes, h]

theorem expensiveNodes_keep (hother : ∀ u, u ≠ t → a'.thread u = a.thread u)
    (hself : (a'.thread t).running? = (a.thread t).running?) : expensiveNodes tbl a' = expensiveNodes tbl a := by
  have hrunning : ∀ u, (a'.thread u).running? = (a.thread u).running? := by
    intro u
    by_cases hut : u = t
    · exact hut ▸ hself
    · rw [hother u hut]
  refine expensiveNodes_congr fun i => ?_
  simp only [hrunning]

theorem expensiveNodes_start (hother : ∀ u, u ≠ t → a'.thread u = a.thread u) (hold : (a.thread t).running? = none)
    (hnew : (a'.thread t).running? = some i) (hi : i < tbl.maxNodes) :
    expensiveNodes tbl a' = if (tbl.data i).expensive = true then insert i (expensiveNodes tbl a)
    else expensiveNodes tbl a := by
  have hiff : ∀ j, (∃ u, (a'.thread u).running? = some j) ↔ j = i ∨ ∃ u, (a.thread u).running? = some j := by
    intro j
    constructor
    · rintro ⟨u, hu⟩
      by_cases hut : u = t
      · rw [hut, hnew] at hu
        exact .inl (Option.some.inj hu).symm
      · exact .inr ⟨u, by rwa [← hother u hut]⟩
    · rintro (rfl | ⟨u, hu⟩)
      · exact ⟨t, hnew⟩
      · have hut : u ≠ t := by
          rintro rfl
          simp [hold] at hu
        exact ⟨u, by rwa [hother u hut]⟩
  ext j
  split_ifs with hexp
  · rw [Finset.mem_insert, mem_expensiveNodes, mem_expensiveNodes, hiff]
    constructor
    · rintro ⟨hj, hje, rfl | hrun⟩
      · exact .inl rfl
      · exact .inr ⟨hj, hje, hrun⟩
    · rintro (rfl | ⟨hj, hje, hrun⟩)
      · exact ⟨hi, hexp, .inl rfl⟩
      · exact ⟨hj, hje, .inr hrun⟩
  · rw [mem_expensiveNodes, mem_expensiveNodes, hiff]
    refine and_congr_right fun _ => and_congr_right fun hje => or_iff_right ?_
    rintro rfl
    exact hexp hje

theorem expensiveNodes_stop (h : NodeInv tbl cfg a) (hother : ∀ u, u ≠ t → a'.thread u = a.thread u)
    (hold : (a.thread t).running? = some i) (hnew : (a'.thread t).running? = none) :
    expensiveNodes tbl a' = (expensiveNodes tbl a).erase i := by
  have hheld : a.Held t i := node?_of_running? hold
  ext j
  rw [Finset.mem_erase, mem_expensiveNodes, mem_expensiveNodes]
  constructor
  · rintro ⟨hj, hje, u, hu⟩
    have hut : u ≠ t := by
      rintro rfl
      simp [hnew] at hu
    rw [hother u hut] at hu
    refine ⟨?_, hj, hje, u, hu⟩
    rintro rfl
    exact hut ((h.node j hj).held_unique u t (node?_of_running? hu) hheld)
  · rintro ⟨hji, hj, hje, u, hu⟩
    have hut : u ≠ t := by
      rintro rfl
      exact hji (Option.some.inj (hu.symm.trans hold))
    exact ⟨hj, hje, u, by rwa [hother u hut]⟩

theorem release_expensiveNodes : expensiveNodes tbl (a.release tbl i) = expensiveNodes tbl a := by
  obtain ⟨_, _, _, _, heq, -⟩ := a.release_eq tbl i
  rw [heq]
  rfl

theorem release_expensiveRunning :
    (a.release tbl i).expensiveRunning = a.expensiveRunning - if (tbl.data i).expensive then 1 else 0 := by
  unfold State.release State.unpark
  split_ifs
  · split <;> rfl
  · simp

theorem ThreadStep.expensive (hstep : ThreadStep tbl cfg a t c a' es) (h : NodeInv tbl cfg a) :
    ExpensiveStep tbl cfg t a a' := by
  have hother : ∀ (pc : ThreadPc) u, u ≠ t → Function.update a.thread t pc u = a.thread u :=
    fun _ u hu => Function.update_of_ne hu _ _
  cases hstep with
  | @runEmpty i hpc hprogress hempty =>
      have hnodes : expensiveNodes tbl ((a.setNode i { a.nodes i with progress := .succeeded }).release tbl i) =
          expensiveNodes tbl a := release_expensiveNodes
      have hcount := @release_expensiveRunning tbl (a.setNode i { a.nodes i with progress := .succeeded }) i
      by_cases hexp : (tbl.data i).expensive = true
      · exact .inr (.inr (.inr ⟨⟨i, hpc, hprogress, hempty, hexp⟩, by rw [hcount, if_pos hexp]; rfl, hnodes⟩))
      · exact .inl ⟨by rw [hcount, if_neg hexp]; simp, hnodes⟩
  | @run i hpc hprogress haction hlimit =>
      have hheld := held_advance hpc
      have hidle : (a.thread t).running? = none := by rw [hpc]; rfl
      have hstart : expensiveNodes tbl (({ a with expensiveRunning :=
          a.expensiveRunning + if (tbl.data i).expensive then 1 else 0 }.setLock none).setThread t (.prepare i)) = _ :=
        expensiveNodes_start (hother (.prepare i)) hidle (by simp [ThreadPc.running?]) (h.held_lt t i hheld)
      by_cases hexp : (tbl.data i).expensive = true
      · refine .inr (.inl ⟨i, fun hmem => ?_, hlimit hexp, by simp [hexp], hstart.trans (if_pos hexp)⟩)
        obtain ⟨-, -, u, hu⟩ := mem_expensiveNodes.mp hmem
        have hut := (h.node i (h.held_lt t i hheld)).held_unique u t (node?_of_running? hu) hheld
        rw [hut, hidle] at hu
        cases hu
      · exact .inl ⟨by simp [hexp], hstart.trans (if_neg hexp)⟩
  | @finishAction i result hpc hlock =>
      have hrunning : (a.thread t).running? = some i := by rw [hpc]; rfl
      have hheld : a.Held t i := node?_of_running? hrunning
      have hi := h.held_lt t i hheld
      have hcount := @release_expensiveRunning tbl
        ((((a.childSignal result).setLock (some t)).setThread t (.advance i)).setNode i
        { a.nodes i with progress := State.exitProgress result }) i
      have hstop : expensiveNodes tbl (((((a.childSignal result).setLock (some t)).setThread t (.advance i)).setNode i
          { a.nodes i with progress := State.exitProgress result }).release tbl i) = (expensiveNodes tbl a).erase i :=
        release_expensiveNodes.trans
          (expensiveNodes_stop h (hother (.advance i)) hrunning (by simp [ThreadPc.running?]))
      by_cases hexp : (tbl.data i).expensive = true
      · exact .inr (.inr (.inl ⟨i,
          mem_expensiveNodes.mpr ⟨hi, hexp, t, hrunning⟩, by rw [hcount, if_pos hexp]; rfl, hstop⟩))
      · refine .inl ⟨by rw [hcount, if_neg hexp]; simp, hstop.trans (Finset.erase_eq_of_notMem fun hmem => hexp ?_)⟩
        exact (mem_expensiveNodes.mp hmem).2.1
  | idle hpc => exact .inl ⟨rfl, rfl⟩
  | unblock hpc hprogress hready => exact .inl ⟨rfl, rfl⟩
  | succeed hpc hprogress => exact .inl ⟨rfl, rfl⟩
  | fail hpc hprogress => exact .inl ⟨rfl, rfl⟩
  | acquire hpc hlock => exact .inl ⟨rfl, expensiveNodes_keep (hother _) (by simp [hpc, ThreadPc.running?])⟩
  | sleep hpc hkeep hring => exact .inl ⟨rfl, expensiveNodes_keep (hother _) (by simp [hpc, ThreadPc.running?])⟩
  | exit hpc hkeep => exact .inl ⟨rfl, expensiveNodes_keep (hother _) (by simp [hpc, ThreadPc.running?])⟩
  | dequeue hpc hkeep hring => exact .inl ⟨rfl, expensiveNodes_keep (hother _) (by simp [hpc, ThreadPc.running?])⟩
  | block hpc hprogress hwait => exact .inl ⟨rfl, expensiveNodes_keep (hother _) (by simp [hpc, ThreadPc.running?])⟩
  | enterCheck hpc hprogress => exact .inl ⟨rfl, expensiveNodes_keep (hother _) (by simp [hpc, ThreadPc.running?])⟩
  | finishCheck hpc hlock => exact .inl ⟨rfl, expensiveNodes_keep (hother _) (by simp [hpc, ThreadPc.running?])⟩
  | park hpc hprogress haction hexp hlimit =>
      exact .inl ⟨rfl, expensiveNodes_keep (hother _) (by simp [hpc, ThreadPc.running?])⟩
  | noDirectories hpc hdirs => exact .inl ⟨rfl, expensiveNodes_keep (hother _) (by simp [hpc, ThreadPc.running?])⟩
  | launchPre hpc hdirs hpre => exact .inl ⟨rfl, expensiveNodes_keep (hother _) (by simp [hpc, ThreadPc.running?])⟩
  | launch hpc hdirs hpre => exact .inl ⟨rfl, expensiveNodes_keep (hother _) (by simp [hpc, ThreadPc.running?])⟩
  | preFailed hpc hcode => exact .inl ⟨rfl, expensiveNodes_keep (hother _) (by simp [hpc, ThreadPc.running?])⟩
  | launchAfterPre hpc hcode => exact .inl ⟨rfl, expensiveNodes_keep (hother _) (by simp [hpc, ThreadPc.running?])⟩
  | actionDone hpc => exact .inl ⟨rfl, expensiveNodes_keep (hother _) (by simp [hpc, ThreadPc.running?])⟩
  | complete hpc hprogress hnodup hws =>
      exact .inl ⟨rfl, expensiveNodes_keep (hother _) (by simp [hpc, State.pushAll, ThreadPc.running?])⟩

/-- The main thread's steps leave the counter and what it counts alone. -/
theorem DriverStep.expensive (hstep : DriverStep tbl cfg a a') (h : Inv tbl cfg a) :
    a'.expensiveRunning = a.expensiveRunning ∧ expensiveNodes tbl a' = expensiveNodes tbl a := by
  have hdriver := h.driver
  cases hstep with
  | wake hpc =>
      rw [hpc] at hdriver
      have hother : ∀ u, u ≠ 0 → Function.update a.thread 0 .start u = a.thread u :=
        fun u hu => Function.update_of_ne hu _ _
      exact ⟨rfl, expensiveNodes_keep hother (by simp [hdriver.1, ThreadPc.running?])⟩
  | _ => exact ⟨rfl, rfl⟩

theorem Step.expensive_le (hstep : Step tbl cfg a act a' es) (h : Inv tbl cfg a)
    (hle : a.expensiveRunning ≤ (expensiveNodes tbl a).card) : a'.expensiveRunning ≤ (expensiveNodes tbl a').card := by
  cases hstep with
  | thread ht hstep =>
      rcases hstep.expensive h.node with ⟨hcount, hset⟩ | ⟨i, hi, -, hcount, hset⟩ | ⟨i, hi, hcount, hset⟩ |
        ⟨-, hcount, hset⟩
      · rwa [hcount, hset]
      · rw [hcount, hset, Finset.card_insert_of_notMem hi]
        push_cast
        omega
      · have hpos := Finset.card_pos.mpr ⟨i, hi⟩
        rw [hcount, hset, Finset.card_erase_of_mem hi]
        omega
      · rw [hcount, hset]
        omega
  | signal reason => exact hle
  | driver hstep =>
      obtain ⟨hcount, hset⟩ := hstep.expensive h
      rwa [hcount, hset]

/-- The counter is right and within the limit. -/
def ExpensiveCounted (tbl : NodeTable) (cfg : Config) (a : State) : Prop :=
  a.expensiveRunning = (expensiveNodes tbl a).card ∧ a.expensiveRunning ≤ cfg.maxExpensiveCount

theorem Step.expensive_counted (hstep : Step tbl cfg a act a' es) (h : Inv tbl cfg a)
    (hempty : ∀ t c, act = .thread t c → ¬ RunsEmpty tbl a t) (hcounted : ExpensiveCounted tbl cfg a) :
    ExpensiveCounted tbl cfg a' := by
  obtain ⟨heq, hle⟩ := hcounted
  cases hstep with
  | @thread t c _ _ ht hstep =>
      rcases hstep.expensive h.node with
        ⟨hcount, hset⟩ | ⟨i, hi, hlimit, hcount, hset⟩ | ⟨i, hi, hcount, hset⟩ | ⟨hruns, -⟩
      · exact ⟨by rw [hcount, hset, heq], by rwa [hcount]⟩
      · refine ⟨?_, by omega⟩
        rw [hcount, hset, Finset.card_insert_of_notMem hi, heq]
        push_cast
        rfl
      · have hpos := Finset.card_pos.mpr ⟨i, hi⟩
        refine ⟨?_, by omega⟩
        rw [hcount, hset, Finset.card_erase_of_mem hi, heq]
        omega
      · exact absurd hruns (hempty t c rfl)
  | signal reason => exact ⟨heq, hle⟩
  | driver hstep =>
      obtain ⟨hcount, hset⟩ := hstep.expensive h
      exact ⟨by rw [hcount, hset, heq], by rwa [hcount]⟩

theorem expensiveNodes_init (tbl : NodeTable) (cfg : Config) :
    expensiveNodes tbl ((Tundra.State.init cfg).spec tbl) = ∅ := by
  ext i
  simp only [mem_expensiveNodes, Finset.notMem_empty, iff_false, not_and, not_exists]
  intro _ _ t ht
  have := node?_of_running? ht
  rw [(init_idle tbl cfg t).1] at this
  cases this

/-- While a node is parked, another expensive node is on its way through `RunAction`. -/
def Parked (tbl : NodeTable) (a : State) : Prop :=
  a.expensiveWaitList ≠ [] → ∃ i < tbl.maxNodes, (tbl.data i).expensive = true ∧ (tbl.data i).action.bytes ≠ [] ∧
    (a.nodes i).progress = .runAction ∧ i ∉ a.expensiveWaitList

theorem Parked.of_progress (h : Parked tbl a) (hparked : a'.expensiveWaitList = a.expensiveWaitList)
    (hprogress : ∀ i, (a.nodes i).progress = .runAction → (a'.nodes i).progress = .runAction) : Parked tbl a' := by
  intro hne
  rw [hparked] at hne ⊢
  obtain ⟨i, hi, hexp, haction, hp, hout⟩ := h hne
  exact ⟨i, hi, hexp, haction, hprogress i hp, hout⟩

/-- The node that gives up a slot hands it to the last parked one. -/
theorem Parked.release (h : NodeInv tbl cfg a) (hexp : (tbl.data i).expensive = true) :
    Parked tbl (a.release tbl i) := by
  unfold State.release State.unpark
  rw [if_pos hexp]
  cases hlist : a.expensiveWaitList with
  | nil => simp [Parked]
  | cons j rest =>
      intro _
      have hmem : j ∈ a.expensiveWaitList := by simp [hlist]
      have hj := h.parked_lt j hmem
      have hnode := h.node j hj
      obtain ⟨hq, ha⟩ := hnode.parked_iff.mp hmem
      have hprogress := hnode.parked_progress hq ha
      obtain ⟨hjexp, hjaction⟩ := hnode.queued_run hq hprogress
      have hnodup := List.nodup_cons.mp (hlist ▸ h.parked_nodup)
      exact ⟨j, hj, hjexp, hjaction, by simp [hprogress], hnodup.1⟩

theorem ThreadStep.parked (hstep : ThreadStep tbl cfg a t c a' es) (ht : t < cfg.threadCount)
    (h : NodeInv tbl cfg a) (hsched : Sched tbl a) (hle : a.expensiveRunning ≤ (expensiveNodes tbl a).card)
    (hparked : Parked tbl a) : Parked tbl a' := by
  -- a step that sets the progress of a node which was not in `kRunAction`
  have hset : ∀ {i : Nat} {n : NodeState}, (a.nodes i).progress ≠ .runAction → ∀ k, (a.nodes k).progress = .runAction →
      (Function.update a.nodes i n k).progress = .runAction := by
    intro i n hi k hk
    have hki : k ≠ i := by
      rintro rfl
      exact hi hk
    rwa [Function.update_of_ne hki]
  cases hstep with
  | @runEmpty i hpc hprogress hempty =>
      have hinv := (advance_progress h hsched ht hpc (by simp [State.Completed, hprogress]) (by simp [hprogress])
        .succeeded
        (by simp)).1
      by_cases hexp : (tbl.data i).expensive = true
      · exact Parked.release hinv hexp
      · rw [State.release, if_neg hexp]
        intro hne
        obtain ⟨k, hk, hkexp, hkaction, hp, hout⟩ := hparked hne
        have hki : k ≠ i := by
          rintro rfl
          exact hexp hkexp
        exact ⟨k, hk, hkexp, hkaction, by simpa [hki] using hp, hout⟩
  | @park i hpc hprogress haction hexp hlimit =>
      -- the limit is positive and reached, so an expensive node runs
      have hpos : 0 < (expensiveNodes tbl a).card := by
        have := cfg.maxExpensiveCount_pos
        omega
      obtain ⟨k, hk⟩ := Finset.card_pos.mp hpos
      obtain ⟨hklt, hkexp, u, hu⟩ := mem_expensiveNodes.mp hk
      have hheld := node?_of_running? hu
      obtain ⟨hkp, hkaction⟩ := (h.node k hklt).running_progress u hu
      have hki : k ≠ i := by
        rintro rfl
        have hut := (h.node k hklt).held_unique u t hheld (held_advance hpc)
        rw [hut, hpc] at hu
        cases hu
      intro _
      exact ⟨k, hklt, hkexp, hkaction, by simpa [hki] using hkp, by simp [hki, h.not_mem_parked hheld]⟩
  | @finishAction i result hpc hlock =>
      have hinv := (relock_progress h hsched ht hpc).1
      by_cases hexp : (tbl.data i).expensive = true
      · exact Parked.release hinv hexp
      · rw [State.release, if_neg hexp]
        intro hne
        obtain ⟨k, hk, hkexp, hkaction, hp, hout⟩ := hparked hne
        have hki : k ≠ i := by
          rintro rfl
          exact hexp hkexp
        exact ⟨k, hk, hkexp, hkaction, by simpa [hki] using hp, hout⟩
  | @dequeue i rest hpc hkeep hring =>
      refine hparked.of_progress rfl fun k hk => ?_
      by_cases hki : k = i
      · subst hki
        simpa using hk
      · simpa [hki] using hk
  | block hpc hprogress hwait => exact hparked.of_progress rfl (hset (by simp [hprogress]))
  | unblock hpc hprogress hready =>
      exact hparked.of_progress rfl (hset (by rcases hprogress with hp | hp <;> simp [hp]))
  | @finishCheck i hpc hlock =>
      have hheld : a.Held t i := by rw [State.Held, hpc]; rfl
      have hprogress := (h.node i (h.held_lt t i hheld)).check_progress t hpc
      exact hparked.of_progress rfl (hset (by simp [hprogress]))
  | succeed hpc hprogress => exact hparked.of_progress rfl (hset (by rcases hprogress with hp | hp <;> simp [hp]))
  | fail hpc hprogress => exact hparked.of_progress rfl (hset (by simp [hprogress]))
  | @complete i ws hpc hprogress hnodup hws =>
      refine hparked.of_progress rfl fun k hk => ?_
      by_cases hkw : k ∈ ws <;> simpa [State.pushAll, State.queueAll, hkw] using hk
  | _ => exact hparked.of_progress rfl fun _ hk => hk

theorem Step.parked (hstep : Step tbl cfg a act a' es) (h : Inv tbl cfg a)
    (hle : a.expensiveRunning ≤ (expensiveNodes tbl a).card) (hparked : Parked tbl a) : Parked tbl a' := by
  cases hstep with
  | thread ht hstep => exact hstep.parked ht h.node h.sched hle hparked
  | signal reason => exact hparked
  | driver hstep =>
      have hdriver := h.driver
      cases hstep with
      | beginPass hpc hp hlock =>
          rw [hpc] at hdriver
          intro hne
          exact absurd (hdriver.2.2.empty rfl h.node h.sched).2 hne
      | _ => exact hparked

end Spec

/-! ### The limit on expensive nodes -/

variable {tbl : NodeTable} {cfg : Config} {s : State} {tr : List Event}

namespace State

/-- The expensive nodes that have passed the limit test and have not been released. -/
def expensiveInRunAction (tbl : NodeTable) (cfg : Config) (s : State) : Finset Nat :=
  (Finset.range tbl.maxNodes).filter fun i =>
    (tbl.data i).expensive = true ∧ ∃ t < cfg.threadCount, (s.thread t).running? = some i

/-- The expensive nodes with a process of theirs running. -/
def expensiveExecuting (tbl : NodeTable) (cfg : Config) (s : State) : Finset Nat :=
  (Finset.range tbl.maxNodes).filter fun i =>
    (tbl.data i).expensive = true ∧ ∃ t < cfg.threadCount, s.thread t = .preAction i ∨ s.thread t = .action i

/-- `m_ExpensiveRunning` counts what it is named for and stays within the limit. -/
def ExpensiveLimit (tbl : NodeTable) (cfg : Config) (s : State) : Prop :=
  s.expensiveRunning = (s.expensiveInRunAction tbl cfg).card ∧ 0 ≤ s.expensiveRunning ∧
    s.expensiveRunning ≤ cfg.maxExpensiveCount ∧ ((s.expensiveExecuting tbl cfg).card : Int) ≤ cfg.maxExpensiveCount

/-- The step does not take an expensive node with an empty action into `RunAction`. -/
def NotEmptyExpensive (tbl : NodeTable) (s : State) (act : Action) : Prop :=
  ∀ t c i, act = .thread t c → s.thread t = .advance i → (s.nodes i).progress = .runAction →
    ¬ ((tbl.data i).action.bytes = [] ∧ (tbl.data i).expensive = true)

end State

theorem quiet_running (pc : ThreadPc) : pc.quiet.running? = pc.running? := by cases pc <;> rfl

theorem expensiveInRunAction_eq (hinv : Spec.Inv tbl cfg (s.spec tbl)) :
    s.expensiveInRunAction tbl cfg = Spec.expensiveNodes tbl (s.spec tbl) := by
  ext i
  rw [State.expensiveInRunAction, Finset.mem_filter, Finset.mem_range, Spec.mem_expensiveNodes]
  refine and_congr_right fun _ => and_congr_right fun _ => ?_
  simp only [State.spec, quiet_running]
  constructor
  · rintro ⟨t, -, ht⟩
    exact ⟨t, ht⟩
  · rintro ⟨t, ht⟩
    refine ⟨t, ?_, ht⟩
    by_contra hge
    have hexit : (s.thread t).quiet = .exited := hinv.node.thread_lt t (not_lt.mp hge)
    have hidle : (s.thread t).quiet.running? = none := by rw [hexit]; rfl
    rw [quiet_running, ht] at hidle
    cases hidle

/-- In every run in which no expensive node with an empty action gets to `RunAction`, the counter is the number
of expensive nodes between the limit test and their release, and no more than the limit run at the same time. -/
theorem expensive_limit (hreach : Transition.Reach (buildSystem tbl cfg) (State.NotEmptyExpensive tbl) s tr) :
    s.ExpensiveLimit tbl cfg := by
  obtain ⟨a, hrep, hinv, heq, hle⟩ := reach_invariant (P := fun a _ => Spec.ExpensiveCounted tbl cfg a)
    (by
      refine ⟨?_, cfg.maxExpensiveCount_pos.le⟩
      rw [Spec.expensiveNodes_init]
      rfl)
    (by
      intro s a tr act a' es hrep hinv hcounted hallowed hstep
      refine hstep.expensive_counted hinv ?_ hcounted
      rintro t c rfl ⟨i, hpc, hprogress, hempty, hexp⟩
      have hthread : s.thread t = .advance i := ThreadPc.quiet_eq ((hrep.thread t).symm.trans hpc) (by simp)
      exact hallowed t c i rfl hthread (by rw [hrep.nodes]; exact hprogress) ⟨hempty, hexp⟩)
    hreach
  obtain rfl := hrep.spec
  rw [← expensiveInRunAction_eq hinv] at heq
  have hrunning : s.expensiveRunning = (s.spec tbl).expensiveRunning := rfl
  have hsub : s.expensiveExecuting tbl cfg ⊆ s.expensiveInRunAction tbl cfg := by
    intro i hi
    obtain ⟨hlt, hexp, t, ht, hpc⟩ := Finset.mem_filter.mp hi
    refine Finset.mem_filter.mpr ⟨hlt, hexp, t, ht, ?_⟩
    rcases hpc with hpc | hpc <;> rw [hpc] <;> rfl
  have hcard := Finset.card_le_card hsub
  refine ⟨heq, ?_, hle, ?_⟩ <;> omega

/-- The limit at work: the expensive node of the pair is running. -/
theorem expensive_limit_pair :
    ∃ s tr, Transition.Reach (buildSystem .pair .single) (State.NotEmptyExpensive .pair) s tr ∧
    s.expensiveRunning = 1 ∧ s.ExpensiveLimit .pair .single := by
  have hexec : (Transition.exec (buildSystem .pair .single) ([.driver, .driver] ++ List.replicate 17 (.thread 0 {}))
      (.init .single, [])).map (fun c => c.1.expensiveRunning) = some 1 := by
    decide +kernel
  have hallowed : ∀ s act, State.NotEmptyExpensive .pair s act := by
    rintro s act t c i - - - ⟨hempty, hexp⟩
    match i with
    | 0 => cases hexp
    | 1 => cases hempty
    | n + 2 => cases hexp
  obtain ⟨s, tr, hreach, hview⟩ := Transition.exists_reach_of_exec (fun act _ s => hallowed s act) hexec
  exact ⟨s, tr, hreach, hview, expensive_limit hreach⟩

/-- Three expensive nodes, the first without an action. -/
def NodeTable.loose : NodeTable :=
  .whole [{ NodeData.empty with expensive := true }, { NodeData.empty with action := .run, expensive := true },
    { NodeData.empty with action := .run, expensive := true }] 1 (fun _ => none) (by decide)

/-- The node without an action takes the counter to -1, and then two nodes run under a limit of one. -/
theorem expensive_limit_loose : ∃ s tr, Reaches .loose .double s tr ∧ (s.expensiveExecuting .loose .double).card = 2 ∧
    ¬ s.ExpensiveLimit .loose .double := by
  have hexec : (Transition.exec (buildSystem .loose .double)
      ([.driver, .driver] ++ List.replicate 11 (.thread 0 {}) ++ List.replicate 4 (.thread 1 {}) ++
        List.replicate 3 (.thread 0 {}) ++ List.replicate 3 (.thread 1 {})) (.init .double, [])).map
      (fun c => (c.1.expensiveExecuting .loose .double).card) = some 2 := by
    decide +kernel
  obtain ⟨s, tr, hreach, hview⟩ := Transition.exists_reach_of_exec (fun _ _ _ => trivial) hexec
  refine ⟨s, tr, hreach, hview, fun hlimit => ?_⟩
  have hle := hlimit.2.2.2
  rw [hview] at hle
  exact absurd hle (by decide)

end Tundra
