import Tundra.Queue.Spec

/-!
# Where a node can be

The two flags of a node say where it is: in the ring, parked, in the hands of a thread, done, or nowhere.
`NodeOk` says it of one node, with the progress values each place allows, and `NodeInv` of the whole table.
Every step of the abstract machine keeps it.
-/

namespace Tundra.Spec

/-- A node's flags and progress agree with the ring, the parked list and the threads. -/
structure NodeOk (tbl : NodeTable) (a : State) (i : Nat) : Prop where
  ring_iff : i ∈ a.ring ↔ (a.nodes i).queued = true ∧ (a.nodes i).active = false
  parked_iff : i ∈ a.expensiveWaitList ↔ (a.nodes i).queued = true ∧ (a.nodes i).active = true
  held_flags : ∀ t, a.Held t i → (a.nodes i).queued = false ∧ (a.nodes i).active = true
  held_unique : ∀ t u, a.Held t i → a.Held u i → t = u
  held_or_done : (a.nodes i).queued = false → (a.nodes i).active = true → a.Completed i ∨ ∃ t, a.Held t i
  done_flags : a.Completed i → (a.nodes i).queued = false ∧ (a.nodes i).active = true
  ring_progress : (a.nodes i).queued = true → (a.nodes i).active = false →
    (a.nodes i).progress = .initial ∨ (a.nodes i).progress = .blocked ∨ (a.nodes i).progress = .runAction
  queued_run : (a.nodes i).queued = true → (a.nodes i).progress = .runAction →
    (tbl.data i).expensive = true ∧ (tbl.data i).action.bytes ≠ []
  parked_progress : (a.nodes i).queued = true → (a.nodes i).active = true → (a.nodes i).progress = .runAction
  idle_progress : (a.nodes i).queued = false → (a.nodes i).active = false →
    (a.nodes i).progress = .initial ∨ (a.nodes i).progress = .blocked
  check_progress : ∀ t, a.thread t = .checkInput i → (a.nodes i).progress = .unblocked
  running_progress : ∀ t, (a.thread t).running? = some i →
    (a.nodes i).progress = .runAction ∧ (tbl.data i).action.bytes ≠ []

/-- Every node is where its flags say, and no node is anywhere twice. -/
structure NodeInv (tbl : NodeTable) (cfg : Config) (a : State) : Prop where
  ring_nodup : a.ring.Nodup
  ring_lt : ∀ i ∈ a.ring, i < tbl.maxNodes
  parked_nodup : a.expensiveWaitList.Nodup
  parked_lt : ∀ i ∈ a.expensiveWaitList, i < tbl.maxNodes
  held_lt : ∀ t i, a.Held t i → i < tbl.maxNodes
  thread_lt : ∀ t, cfg.threadCount ≤ t → a.thread t = .exited
  node : ∀ i < tbl.maxNodes, NodeOk tbl a i

variable {tbl : NodeTable} {cfg : Config} {a a' : State} {i j t u : Nat}

@[simp] theorem node?_of_running? {pc : ThreadPc} (h : pc.running? = some i) : pc.node? = some i := by
  cases pc <;> simp_all [ThreadPc.running?, ThreadPc.node?]

theorem NodeOk.congr (h : NodeOk tbl a i) (hnode : a'.nodes i = a.nodes i) (hring : i ∈ a'.ring ↔ i ∈ a.ring)
    (hparked : i ∈ a'.expensiveWaitList ↔ i ∈ a.expensiveWaitList)
    (hthread : ∀ t, a'.Held t i ∨ a.Held t i → a'.thread t = a.thread t) : NodeOk tbl a' i := by
  have hheld : ∀ t, a'.Held t i ↔ a.Held t i := by
    intro t
    constructor <;> intro hh
    · simpa only [State.Held, ← hthread t (.inl hh)] using hh
    · simpa only [State.Held, hthread t (.inr hh)] using hh
  have hcompleted : a'.Completed i ↔ a.Completed i := by simp only [State.Completed, hnode]
  constructor
  · rw [hring, hnode]
    exact h.ring_iff
  · rw [hparked, hnode]
    exact h.parked_iff
  · simp only [hheld, hnode]
    exact h.held_flags
  · simp only [hheld]
    exact h.held_unique
  · simp only [hheld, hnode, hcompleted]
    exact h.held_or_done
  · rw [hcompleted, hnode]
    exact h.done_flags
  · rw [hnode]
    exact h.ring_progress
  · rw [hnode]
    exact h.queued_run
  · rw [hnode]
    exact h.parked_progress
  · rw [hnode]
    exact h.idle_progress
  · intro t ht
    have heq := hthread t (.inl (by rw [State.Held, ht]; rfl))
    rw [hnode]
    exact h.check_progress t (heq ▸ ht)
  · intro t ht
    have heq := hthread t (.inl (node?_of_running? ht))
    rw [hnode]
    exact h.running_progress t (heq ▸ ht)

/-- A step that moves one node keeps the invariant if it does so for that node, as long as the threads on other
nodes stay. -/
theorem NodeInv.move (h : NodeInv tbl cfg a) (hj : j < tbl.maxNodes) (hnodes : ∀ i, i ≠ j → a'.nodes i = a.nodes i)
    (hring : ∀ i, i ≠ j → (i ∈ a'.ring ↔ i ∈ a.ring))
    (hparked : ∀ i, i ≠ j → (i ∈ a'.expensiveWaitList ↔ i ∈ a.expensiveWaitList))
    (hthread : ∀ u i, i ≠ j → a'.Held u i ∨ a.Held u i → a'.thread u = a.thread u)
    (hlt : ∀ u, cfg.threadCount ≤ u → a'.thread u = a.thread u)
    (hringNodup : a'.ring.Nodup) (hparkedNodup : a'.expensiveWaitList.Nodup) (hok : NodeOk tbl a' j) :
    NodeInv tbl cfg a' where
  ring_nodup := hringNodup
  ring_lt i hi := by
    by_cases hij : i = j
    · exact hij ▸ hj
    · exact h.ring_lt i ((hring i hij).mp hi)
  parked_nodup := hparkedNodup
  parked_lt i hi := by
    by_cases hij : i = j
    · exact hij ▸ hj
    · exact h.parked_lt i ((hparked i hij).mp hi)
  held_lt u i hu := by
    by_cases hij : i = j
    · exact hij ▸ hj
    · exact h.held_lt u i (by rwa [State.Held, ← hthread u i hij (.inl hu)])
  thread_lt u hu := by
    rw [hlt u hu]
    exact h.thread_lt u hu
  node i hi := by
    by_cases hij : i = j
    · exact hij ▸ hok
    · exact (h.node i hi).congr (hnodes i hij) (hring i hij) (hparked i hij) fun u hu => hthread u i hij hu

/-- A thread that has at most node `j` before and after its step does not disturb the other nodes. -/
theorem thread_of_ne (hthread : ∀ u, u ≠ t → a'.thread u = a.thread u) (hold : ∀ i, a.Held t i → i = j)
    (hnew : ∀ i, a'.Held t i → i = j) (u i : Nat) (hij : i ≠ j) (hu : a'.Held u i ∨ a.Held u i) :
    a'.thread u = a.thread u := by
  by_cases hut : u = t
  · subst hut
    rcases hu with hu | hu
    · exact absurd (hnew i hu) hij
    · exact absurd (hold i hu) hij
  · exact hthread u hut

theorem NodeInv.idle (h : NodeInv tbl cfg a) (ht : t < cfg.threadCount) (hnodes : a'.nodes = a.nodes)
    (hring : a'.ring = a.ring) (hparked : a'.expensiveWaitList = a.expensiveWaitList)
    (hthread : ∀ u, u ≠ t → a'.thread u = a.thread u) (hold : (a.thread t).node? = none)
    (hnew : (a'.thread t).node? = none) : NodeInv tbl cfg a' where
  ring_nodup := hring ▸ h.ring_nodup
  ring_lt := hring ▸ h.ring_lt
  parked_nodup := hparked ▸ h.parked_nodup
  parked_lt := hparked ▸ h.parked_lt
  held_lt u i hu := by
    by_cases hut : u = t
    · subst hut
      simp [State.Held, hnew] at hu
    · exact h.held_lt u i (by rwa [State.Held, ← hthread u hut])
  thread_lt u hu := by
    rw [hthread u (by omega)]
    exact h.thread_lt u hu
  node i hi := by
    refine (h.node i hi).congr (by rw [hnodes]) (by rw [hring]) (by rw [hparked]) fun u hu => ?_
    by_cases hut : u = t
    · subst hut
      simp [State.Held, hnew, hold] at hu
    · exact hthread u hut

/-- The invariant only looks at the nodes, the ring, the parked list and the threads. -/
theorem NodeInv.of_eq (h : NodeInv tbl cfg a) (hnodes : a'.nodes = a.nodes) (hring : a'.ring = a.ring)
    (hparked : a'.expensiveWaitList = a.expensiveWaitList) (hthread : a'.thread = a.thread) : NodeInv tbl cfg a' where
  ring_nodup := hring ▸ h.ring_nodup
  ring_lt := hring ▸ h.ring_lt
  parked_nodup := hparked ▸ h.parked_nodup
  parked_lt := hparked ▸ h.parked_lt
  held_lt := by
    simp only [State.Held, hthread]
    exact h.held_lt
  thread_lt := hthread ▸ h.thread_lt
  node i hi := (h.node i hi).congr (by rw [hnodes]) (by rw [hring]) (by rw [hparked]) fun u _ => by rw [hthread]

/-! ### The moves of a node -/

theorem NodeInv.held_flags (h : NodeInv tbl cfg a) (hheld : a.Held t i) :
    (a.nodes i).queued = false ∧ (a.nodes i).active = true :=
  (h.node i (h.held_lt t i hheld)).held_flags t hheld

theorem NodeInv.not_mem_ring (h : NodeInv tbl cfg a) (hheld : a.Held t i) : i ∉ a.ring := by
  rw [(h.node i (h.held_lt t i hheld)).ring_iff, (h.held_flags hheld).1]
  simp

theorem NodeInv.not_mem_parked (h : NodeInv tbl cfg a) (hheld : a.Held t i) : i ∉ a.expensiveWaitList := by
  rw [(h.node i (h.held_lt t i hheld)).parked_iff, (h.held_flags hheld).1]
  simp

/-- The thread that has a node is at `advance`, unless the node is being checked or run. -/
theorem NodeInv.held_at (h : NodeInv tbl cfg a) (hheld : a.Held t i) (hcheck : (a.nodes i).progress ≠ .unblocked)
    (hrun : (a.nodes i).progress ≠ .runAction) : a.thread t = .advance i := by
  have hnode := h.node i (h.held_lt t i hheld)
  have hchecking : a.thread t ≠ .checkInput i := fun hpc => hcheck (hnode.check_progress t hpc)
  have hrunning : (a.thread t).running? ≠ some i := fun hpc => hrun (hnode.running_progress t hpc).1
  rw [State.Held] at hheld
  cases hpc : a.thread t <;> simp_all [ThreadPc.node?, ThreadPc.running?]

theorem NodeInv.hold (h : NodeInv tbl cfg a) (ht : t < cfg.threadCount) (hheld : a.Held t i) (hheld' : a'.Held t i)
    (hnodes : ∀ j, j ≠ i → a'.nodes j = a.nodes j) (hqueued : (a'.nodes i).queued = (a.nodes i).queued)
    (hactive : (a'.nodes i).active = (a.nodes i).active) (hring : a'.ring = a.ring)
    (hparked : a'.expensiveWaitList = a.expensiveWaitList) (hthread : ∀ u, u ≠ t → a'.thread u = a.thread u)
    (hcheck : a'.thread t = .checkInput i → (a'.nodes i).progress = .unblocked)
    (hrunning : (a'.thread t).running? = some i → (a'.nodes i).progress = .runAction ∧ (tbl.data i).action.bytes ≠ []) :
    NodeInv tbl cfg a' := by
  have hi := h.held_lt t i hheld
  obtain ⟨hq, ha⟩ := h.held_flags hheld
  rw [← hqueued] at hq
  rw [← hactive] at ha
  have hinj : ∀ {b : State} {j : Nat}, b.Held t i → b.Held t j → j = i := by
    intro b j hi hj
    exact (Option.some.inj (hi.symm.trans hj)).symm
  have hunique : ∀ u, a'.Held u i → u = t := by
    intro u hu
    by_contra hut
    rw [State.Held, hthread u hut] at hu
    exact hut ((h.node i hi).held_unique u t hu hheld)
  refine h.move hi hnodes (by simp [hring]) (by simp [hparked])
    (thread_of_ne hthread (fun j hj => hinj hheld hj) fun j hj => hinj hheld' hj) (fun u hu => hthread u (by omega))
    (hring ▸ h.ring_nodup) (hparked ▸ h.parked_nodup) ?_
  constructor
  · rw [hring, hq]
    simp [h.not_mem_ring hheld]
  · rw [hparked, hq]
    simp [h.not_mem_parked hheld]
  · exact fun _ _ => ⟨hq, ha⟩
  · intro u v hu hv
    rw [hunique u hu, hunique v hv]
  · exact fun _ _ => .inr ⟨t, hheld'⟩
  · exact fun _ => ⟨hq, ha⟩
  · intro hq'
    simp [hq] at hq'
  · intro hq'
    simp [hq] at hq'
  · intro hq'
    simp [hq] at hq'
  · intro _ ha'
    simp [ha] at ha'
  · intro u hu
    have := hunique u (by rw [State.Held, hu]; rfl)
    exact hcheck (this ▸ hu)
  · intro u hu
    have := hunique u (node?_of_running? hu)
    exact hrunning (this ▸ hu)

theorem NodeInv.unpark (h : NodeInv tbl cfg a) : NodeInv tbl cfg a.unpark := by
  unfold State.unpark
  split
  · exact h
  · next j rest hlist =>
    have hmem : j ∈ a.expensiveWaitList := by simp [hlist]
    have hj := h.parked_lt j hmem
    have hnode := h.node j hj
    obtain ⟨hq, ha⟩ := hnode.parked_iff.mp hmem
    have hnotHeld : ∀ u, ¬ a.Held u j := fun u hu => by simp [(hnode.held_flags u hu).1] at hq
    have hring : j ∉ a.ring := by simp [hnode.ring_iff, ha]
    have hnodup := List.nodup_cons.mp (hlist ▸ h.parked_nodup)
    refine h.move hj (fun i hi => by simp [hi]) (fun i hi => by simp [hi]) (fun i hi => by simp [hlist, hi])
      (fun _ _ _ _ => rfl) (fun _ _ => rfl) ?_ hnodup.2 ?_
    · exact h.ring_nodup.append (List.nodup_singleton j) (by simpa using hring)
    · constructor
      · simp [hq]
      · simp [hnodup.1]
      · exact fun u hu => absurd hu (hnotHeld u)
      · exact fun u _ hu => absurd hu (hnotHeld u)
      · simp [hq]
      · intro hdone
        have hprogress := hnode.parked_progress hq ha
        simp [State.Completed, hprogress] at hdone
      · exact fun _ _ => .inr (.inr (by simpa using hnode.parked_progress hq ha))
      · intro _ _
        exact hnode.queued_run hq (hnode.parked_progress hq ha)
      · simp
      · simp [hq]
      · exact fun u hu => absurd (show a.Held u j by rw [State.Held, show a.thread u = _ from hu]; rfl) (hnotHeld u)
      · exact fun u hu => absurd (node?_of_running? hu) (hnotHeld u)

theorem NodeInv.dequeue {rest : List Nat} (h : NodeInv tbl cfg a) (ht : t < cfg.threadCount) (hpc : a.thread t = .loop)
    (hring : a.ring = i :: rest) :
    NodeInv tbl cfg
      (({ a with ring := rest }.setNode i { a.nodes i with queued := false, active := true }).setThread t
      (.advance i)) := by
  have hmem : i ∈ a.ring := by simp [hring]
  have hi := h.ring_lt i hmem
  have hnode := h.node i hi
  obtain ⟨hq, ha⟩ := hnode.ring_iff.mp hmem
  have hnodup := List.nodup_cons.mp (hring ▸ h.ring_nodup)
  have hnotHeld : ∀ u, ¬ a.Held u i := fun u hu => by simp [(hnode.held_flags u hu).1] at hq
  have hnotParked : i ∉ a.expensiveWaitList := by simp [hnode.parked_iff, ha]
  have hother : ∀ u, u ≠ t → Function.update a.thread t (.advance i) u = a.thread u :=
    fun u hu => Function.update_of_ne hu _ _
  have hself : ∀ u, (Function.update a.thread t (.advance i) u).node? = some i → u = t := by
    intro u hu
    by_contra hut
    rw [hother u hut] at hu
    exact hnotHeld u hu
  refine h.move hi (fun j hj => by simp [hj]) (fun j hj => by simp [hring, hj]) (fun j _ => by simp)
    (thread_of_ne hother (fun j hj => by simp [State.Held, hpc, ThreadPc.node?] at hj) fun j hj => ?_)
    (fun u hu => hother u (by omega)) hnodup.2 h.parked_nodup ?_
  · simpa [State.Held, ThreadPc.node?, eq_comm] using hj
  · constructor
    · simp [hnodup.1]
    · simp [hnotParked]
    · simp
    · intro u v hu hv
      rw [hself u hu, hself v hv]
    · exact fun _ _ => .inr ⟨t, by simp [State.Held, ThreadPc.node?]⟩
    · simp
    · simp
    · simp
    · simp
    · simp
    · intro u hu
      obtain rfl := hself u (by rw [show Function.update a.thread t (.advance i) u = _ from hu]; rfl)
      simp at hu
    · intro u hu
      obtain rfl := hself u (node?_of_running? hu)
      simp [ThreadPc.running?] at hu

/-- Once a thread lets go of its node, nobody holds it. -/
theorem NodeInv.not_held_of_drop (h : NodeInv tbl cfg a) (hheld : a.Held t i) (u : Nat) :
    (Function.update a.thread t .loop u).node? ≠ some i := by
  intro hu
  by_cases hut : u = t
  · subst hut
    simp [ThreadPc.node?] at hu
  · rw [Function.update_of_ne hut] at hu
    exact hut ((h.node i (h.held_lt t i hheld)).held_unique u t hu hheld)

/-- A thread puts its node aside until the dependencies are there. -/
theorem NodeInv.block (h : NodeInv tbl cfg a) (ht : t < cfg.threadCount) (hpc : a.thread t = .advance i) :
    NodeInv tbl cfg ((a.setNode i { a.nodes i with progress := .blocked, active := false }).setThread t .loop) := by
  have hheld : a.Held t i := by rw [State.Held, hpc]; rfl
  have hi := h.held_lt t i hheld
  obtain ⟨hq, -⟩ := h.held_flags hheld
  have hnotHeld := h.not_held_of_drop hheld
  have hother : ∀ u, u ≠ t → Function.update a.thread t .loop u = a.thread u := fun u hu => Function.update_of_ne hu _ _
  refine h.move hi (fun j hj => by simp [hj]) (fun j hj => by simp) (fun j hj => by simp)
    (thread_of_ne hother (fun j hj => ?_) fun j hj => ?_) (fun u hu => hother u (by omega)) h.ring_nodup
      h.parked_nodup ?_
  · exact (Option.some.inj (hheld.symm.trans hj)).symm
  · simp [State.Held, ThreadPc.node?] at hj
  · constructor
    · simp [hq, h.not_mem_ring hheld]
    · simp [h.not_mem_parked hheld]
    · exact fun u hu => absurd hu (hnotHeld u)
    · exact fun u _ hu => absurd hu (hnotHeld u)
    · simp
    · simp [State.Completed]
    · simp
    · simp
    · simp
    · simp
    · exact fun u hu => absurd (by rw [show Function.update a.thread t .loop u = _ from hu]; rfl) (hnotHeld u)
    · exact fun u hu => absurd (node?_of_running? hu) (hnotHeld u)

theorem NodeInv.park (h : NodeInv tbl cfg a) (ht : t < cfg.threadCount) (hpc : a.thread t = .advance i)
    (hprogress : (a.nodes i).progress = .runAction) (haction : (tbl.data i).action.bytes ≠ [])
    (hexp : (tbl.data i).expensive = true) :
    NodeInv tbl cfg
      (({ a with expensiveWaitList := i :: a.expensiveWaitList }.setNode i
      { a.nodes i with queued := true }).setThread t .loop) := by
  have hheld : a.Held t i := by rw [State.Held, hpc]; rfl
  have hi := h.held_lt t i hheld
  obtain ⟨-, ha⟩ := h.held_flags hheld
  have hnotHeld := h.not_held_of_drop hheld
  have hother : ∀ u, u ≠ t → Function.update a.thread t .loop u = a.thread u := fun u hu => Function.update_of_ne hu _ _
  refine h.move hi (fun j hj => by simp [hj]) (fun j hj => by simp) (fun j hj => by simp [hj])
    (thread_of_ne hother (fun j hj => ?_) fun j hj => ?_) (fun u hu => hother u (by omega)) h.ring_nodup
    (List.nodup_cons.mpr ⟨h.not_mem_parked hheld, h.parked_nodup⟩) ?_
  · exact (Option.some.inj (hheld.symm.trans hj)).symm
  · simp [State.Held, ThreadPc.node?] at hj
  · constructor
    · simp [ha, h.not_mem_ring hheld]
    · simp [ha]
    · exact fun u hu => absurd hu (hnotHeld u)
    · exact fun u _ hu => absurd hu (hnotHeld u)
    · simp
    · simp [State.Completed, hprogress]
    · simp [ha]
    · exact fun _ _ => ⟨hexp, haction⟩
    · simp [hprogress]
    · simp
    · exact fun u hu => absurd (by rw [show Function.update a.thread t .loop u = _ from hu]; rfl) (hnotHeld u)
    · exact fun u hu => absurd (node?_of_running? hu) (hnotHeld u)

theorem NodeInv.done (h : NodeInv tbl cfg a) (ht : t < cfg.threadCount) (hpc : a.thread t = .advance i)
    (hprogress : (a.nodes i).progress = .completed) : NodeInv tbl cfg (a.setThread t .loop) := by
  have hheld : a.Held t i := by rw [State.Held, hpc]; rfl
  have hi := h.held_lt t i hheld
  obtain ⟨hq, ha⟩ := h.held_flags hheld
  have hnotHeld := h.not_held_of_drop hheld
  have hother : ∀ u, u ≠ t → Function.update a.thread t .loop u = a.thread u := fun u hu => Function.update_of_ne hu _ _
  refine h.move hi (fun j hj => by simp) (fun j hj => by simp) (fun j hj => by simp)
    (thread_of_ne hother (fun j hj => ?_) fun j hj => ?_) (fun u hu => hother u (by omega)) h.ring_nodup
      h.parked_nodup ?_
  · exact (Option.some.inj (hheld.symm.trans hj)).symm
  · simp [State.Held, ThreadPc.node?] at hj
  · constructor
    · simp [hq, h.not_mem_ring hheld]
    · simp [hq, h.not_mem_parked hheld]
    · exact fun u hu => absurd hu (hnotHeld u)
    · exact fun u _ hu => absurd hu (hnotHeld u)
    · exact fun _ _ => .inl hprogress
    · exact fun _ => ⟨hq, ha⟩
    · simp [hq]
    · simp [hq]
    · simp [hq]
    · simp [ha]
    · exact fun u hu => absurd (by rw [show Function.update a.thread t .loop u = _ from hu]; rfl) (hnotHeld u)
    · exact fun u hu => absurd (node?_of_running? hu) (hnotHeld u)

theorem NodeInv.pushAll {ws : List Nat} (h : NodeInv tbl cfg a) (hnodup : ws.Nodup) (hlt : ∀ w ∈ ws, w < tbl.maxNodes)
    (hflags : ∀ w ∈ ws, (a.nodes w).queued = false ∧ (a.nodes w).active = false) :
    NodeInv tbl cfg (a.pushAll ws) where
  ring_nodup := by
    refine h.ring_nodup.append hnodup fun w hring hw => ?_
    have hq := ((h.node w (hlt w hw)).ring_iff.mp hring).1
    simp [(hflags w hw).1] at hq
  ring_lt i hi := by
    rcases List.mem_append.mp hi with hi | hi
    · exact h.ring_lt i hi
    · exact hlt i hi
  parked_nodup := h.parked_nodup
  parked_lt := h.parked_lt
  held_lt := h.held_lt
  thread_lt := h.thread_lt
  node i hi := by
    by_cases hw : i ∈ ws
    · obtain ⟨hq, ha⟩ := hflags i hw
      have hnode := h.node i hi
      have hnotHeld : ∀ u, ¬ a.Held u i := fun u hu => by simp [(hnode.held_flags u hu).2] at ha
      have hnotDone : ¬ a.Completed i := fun hdone => by simp [(hnode.done_flags hdone).2] at ha
      have hprogress := hnode.idle_progress hq ha
      constructor
      · simp [State.pushAll, State.queueAll, hw, ha]
      · simp [State.pushAll, State.queueAll, hw, ha, hnode.parked_iff]
      · exact fun u hu => absurd hu (hnotHeld u)
      · exact fun u _ hu => absurd hu (hnotHeld u)
      · simp [State.pushAll, State.queueAll, hw]
      · intro hdone
        exact absurd (by simpa [State.Completed, State.pushAll, State.queueAll, hw] using hdone) hnotDone
      · intro _ _
        rcases hprogress with hp | hp <;> simp [State.pushAll, State.queueAll, hw, hp]
      · intro _ hrun
        rcases hprogress with hp | hp <;> simp [State.pushAll, State.queueAll, hw, hp] at hrun
      · simp [State.pushAll, State.queueAll, hw, ha]
      · simp [State.pushAll, State.queueAll, hw]
      · exact fun u hu => absurd (show a.Held u i by rw [State.Held, show a.thread u = _ from hu]; rfl) (hnotHeld u)
      · exact fun u hu => absurd (node?_of_running? hu) (hnotHeld u)
    · exact (h.node i hi).congr (by simp [State.pushAll, State.queueAll, hw]) (by simp [State.pushAll, hw]) Iff.rfl
        fun _ _ => rfl

end Tundra.Spec
