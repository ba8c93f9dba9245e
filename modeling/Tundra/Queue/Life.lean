import Tundra.Queue.Refine

/-!
# The life of a node

A step of the build moves at most one node. `Life` is what can be seen of a node apart from its flags: its
record and the place of the thread that has it, if one has. `LifeStep` lists the moves, and `ThreadStep.life`
shows that a thread's step is one of them for one node and nothing for the others. What the rest of the
development says about single nodes (how often an event happens, what its result depends on) is a statement
about sequences of such moves.
-/

namespace Tundra.Spec

structure Life where
  progress : BuildProgress
  buildResult : Int32
  inputSignature : HashDigest
  pc : Option ThreadPc

open Classical in
/-- Where the thread stands that has the node. -/
noncomputable def State.holder (a : State) (i : Nat) : Option ThreadPc :=
  if h : ∃ t, a.Held t i then some (a.thread h.choose) else none

noncomputable def State.life (a : State) (i : Nat) : Life :=
  ⟨(a.nodes i).progress, (a.nodes i).buildResult, (a.nodes i).inputSignature, a.holder i⟩

/-- The moves of node `i`, with what the environment answers. -/
inductive LifeStep (tbl : NodeTable) (c : Choice) (i : Nat) : Life → Life → List Event → Prop
  | dequeue {l : Life} (hpc : l.pc = none) : LifeStep tbl c i l { l with pc := some (.advance i) } [.dequeue i]
  | block {l : Life} (hpc : l.pc = some (.advance i)) (hprogress : l.progress = .initial) :
      LifeStep tbl c i l { l with progress := .blocked, pc := none } []
  | unblock {l : Life} (hpc : l.pc = some (.advance i)) (hprogress : l.progress = .initial ∨ l.progress = .blocked) :
      LifeStep tbl c i l { l with progress := .unblocked } []
  | enterCheck {l : Life} (hpc : l.pc = some (.advance i)) (hprogress : l.progress = .unblocked) :
      LifeStep tbl c i l { l with pc := some (.checkInput i) } [.checkInput i]
  | finishCheck {l : Life} (hpc : l.pc = some (.checkInput i)) (hprogress : l.progress = .unblocked) :
      LifeStep tbl c i l
        { l with
          pc := some (.advance i)
          inputSignature := c.signature
          progress := checkInputSignature (tbl.data i) (tbl.mmapState i) c.signature c.outputsMissing } []
  | runEmpty {l : Life} (hpc : l.pc = some (.advance i)) (hprogress : l.progress = .runAction)
      (hempty : (tbl.data i).action.bytes = []) : LifeStep tbl c i l { l with progress := .succeeded } []
  | park {l : Life} (hpc : l.pc = some (.advance i)) (hprogress : l.progress = .runAction)
      (haction : (tbl.data i).action.bytes ≠ []) : LifeStep tbl c i l { l with pc := none } []
  | run {l : Life} (hpc : l.pc = some (.advance i)) (hprogress : l.progress = .runAction)
      (haction : (tbl.data i).action.bytes ≠ []) : LifeStep tbl c i l { l with pc := some (.prepare i) } []
  | noDirectories {l : Life} (hpc : l.pc = some (.prepare i)) (hprogress : l.progress = .runAction)
      (hdirs : c.directoriesMade = false) :
      LifeStep tbl c i l { l with pc := some (.relock i none) } []
  | launchPre {l : Life} (hpc : l.pc = some (.prepare i)) (hprogress : l.progress = .runAction)
      (hdirs : c.directoriesMade = true)
      (hpre : (tbl.data i).preAction.isSome = true) : LifeStep tbl c i l { l with pc := some (.preAction i) }
        [.launchPre i]
  | launch {l : Life} (hpc : l.pc = some (.prepare i)) (hprogress : l.progress = .runAction)
      (hdirs : c.directoriesMade = true)
      (hpre : (tbl.data i).preAction.isSome = false) : LifeStep tbl c i l { l with pc := some (.action i) } [.launch i]
  | preFailed {l : Life} (hpc : l.pc = some (.preAction i)) (hprogress : l.progress = .runAction)
      (hcode : c.execResult.returnCode ≠ 0) :
      LifeStep tbl c i l { l with pc := some (.relock i (some c.execResult)) } []
  | launchAfterPre {l : Life} (hpc : l.pc = some (.preAction i)) (hprogress : l.progress = .runAction)
      (hcode : c.execResult.returnCode = 0) :
      LifeStep tbl c i l { l with pc := some (.action i) } [.launch i]
  | actionDone {l : Life} (hpc : l.pc = some (.action i)) (hprogress : l.progress = .runAction) :
      LifeStep tbl c i l { l with pc := some (.relock i (some c.execResult)) } []
  | finishAction {l : Life} {result : Option ExecResult} (hpc : l.pc = some (.relock i result))
      (hprogress : l.progress = .runAction) :
      LifeStep tbl c i l { l with pc := some (.advance i), progress := State.exitProgress result } []
  | succeed {l : Life} (hpc : l.pc = some (.advance i)) (hprogress : l.progress = .succeeded ∨ l.progress = .upToDate) :
      LifeStep tbl c i l { l with buildResult := 0, progress := .completed } []
  | fail {l : Life} (hpc : l.pc = some (.advance i)) (hprogress : l.progress = .failed) :
      LifeStep tbl c i l { l with buildResult := 1, progress := .completed } []
  | complete {l : Life} (hpc : l.pc = some (.advance i)) (hprogress : l.progress = .completed) :
      LifeStep tbl c i l { l with pc := none } []

variable {tbl : NodeTable} {cfg : Config} {a a' : State} {i j t u : Nat} {c : Choice} {es : List Event}

theorem NodeInv.holder_eq (h : NodeInv tbl cfg a) (hheld : a.Held t i) : a.holder i = some (a.thread t) := by
  have hex : ∃ u, a.Held u i := ⟨t, hheld⟩
  rw [State.holder, dif_pos hex, (h.node i (h.held_lt t i hheld)).held_unique _ t hex.choose_spec hheld]

theorem holder_eq_none (h : ∀ t, ¬ a.Held t i) : a.holder i = none := by
  rw [State.holder, dif_neg (by simpa using h)]

theorem holder_some {pc : ThreadPc} (h : a.holder i = some pc) : ∃ t, a.thread t = pc ∧ a.Held t i := by
  unfold State.holder at h
  split at h
  · next hex => exact ⟨hex.choose, Option.some.inj h, hex.choose_spec⟩
  · cases h

theorem NodeInv.life_congr (h : NodeInv tbl cfg a) (h' : NodeInv tbl cfg a')
    (hprogress : (a'.nodes i).progress = (a.nodes i).progress)
    (hresult : (a'.nodes i).buildResult = (a.nodes i).buildResult)
    (hsignature : (a'.nodes i).inputSignature = (a.nodes i).inputSignature)
    (hthread : ∀ u, a'.Held u i ∨ a.Held u i → a'.thread u = a.thread u) : a'.life i = a.life i := by
  have hholder : a'.holder i = a.holder i := by
    by_cases hex : ∃ u, a.Held u i
    · obtain ⟨u, hu⟩ := hex
      have heq := hthread u (.inr hu)
      have hu' : a'.Held u i := by rwa [State.Held, heq]
      rw [h.holder_eq hu, h'.holder_eq hu', heq]
    · have hnone : ∀ u, ¬ a.Held u i := by simpa using hex
      rw [holder_eq_none hnone, holder_eq_none fun u hu => hnone u (by rwa [State.Held, ← hthread u (.inl hu)])]
  rw [State.life, State.life, hprogress, hresult, hsignature, hholder]

theorem holder_release : (a.release tbl i).holder j = a.holder j := by
  obtain ⟨_, _, _, _, heq, -⟩ := a.release_eq tbl i
  rw [heq]
  rfl

theorem life_release : (a.release tbl i).life j = a.life j := by
  have hholder := @holder_release tbl a i j
  obtain ⟨_, _, _, _, heq, hnodes⟩ := a.release_eq tbl i
  obtain ⟨active, hactive⟩ := hnodes j
  rw [State.life, hholder, heq]
  simp only [hactive]
  rfl

/-- A thread that does not have a node before its step and after it moves no node. -/
theorem life_idle (h : NodeInv tbl cfg a) (h' : NodeInv tbl cfg a') (hnodes : a'.nodes = a.nodes)
    (hother : ∀ u, u ≠ t → a'.thread u = a.thread u) (hold : (a.thread t).node? = none)
    (hnew : (a'.thread t).node? = none) (j : Nat) :
    a'.life j = a.life j := by
  refine h.life_congr h' (by rw [hnodes]) (by rw [hnodes]) (by rw [hnodes]) fun u hu => ?_
  by_cases hut : u = t
  · subst hut
    simp [State.Held, hold, hnew] at hu
  · exact hother u hut

/-- A thread that has no node but `i` before its step and after it leaves the other nodes alone. -/
theorem life_other (h : NodeInv tbl cfg a) (h' : NodeInv tbl cfg a')
    (hnodes : ∀ j, j ≠ i → (a'.nodes j).progress = (a.nodes j).progress ∧
    (a'.nodes j).buildResult = (a.nodes j).buildResult ∧ (a'.nodes j).inputSignature = (a.nodes j).inputSignature)
    (hother : ∀ u, u ≠ t → a'.thread u = a.thread u) (hold : ∀ j, a.Held t j → j = i)
    (hnew : ∀ j, a'.Held t j → j = i) (j : Nat) (hj : j ≠ i) : a'.life j = a.life j := by
  obtain ⟨hprogress, hresult, hsignature⟩ := hnodes j hj
  exact h.life_congr h' hprogress hresult hsignature fun u hu => thread_of_ne hother hold hnew u j hj hu

/-- The thread that has node `i` goes on with it. -/
theorem life_keep (h : NodeInv tbl cfg a) (h' : NodeInv tbl cfg a') (hheld : a.Held t i) (pc : ThreadPc)
    (hpc : pc.node? = some i) (n : NodeState) (hnodes : a'.nodes = Function.update a.nodes i n)
    (hthread : a'.thread = Function.update a.thread t pc) :
    (a.life i).pc = some (a.thread t) ∧ a'.life i = ⟨n.progress, n.buildResult, n.inputSignature, some pc⟩ ∧
      ∀ j, j ≠ i → a'.life j = a.life j := by
  have hheld' : a'.Held t i := by rw [State.Held, hthread, Function.update_self, hpc]
  refine ⟨h.holder_eq hheld, ?_, life_other h h' (t := t) ?_ ?_ ?_ ?_⟩
  · rw [State.life, h'.holder_eq hheld', hnodes, hthread, Function.update_self, Function.update_self]
  · intro j hj
    rw [hnodes, Function.update_of_ne hj]
    exact ⟨rfl, rfl, rfl⟩
  · exact fun u hu => by rw [hthread, Function.update_of_ne hu]
  · exact fun j hj => Option.some.inj (hj.symm.trans hheld)
  · exact fun j hj => Option.some.inj (hj.symm.trans hheld')

/-- The thread that has node `i` lets go of it. -/
theorem life_drop (h : NodeInv tbl cfg a) (h' : NodeInv tbl cfg a') (hheld : a.Held t i)
    (hnodes : ∀ j, j ≠ i → (a'.nodes j).progress = (a.nodes j).progress ∧
    (a'.nodes j).buildResult = (a.nodes j).buildResult ∧ (a'.nodes j).inputSignature = (a.nodes j).inputSignature)
    (hthread : a'.thread = Function.update a.thread t .loop) :
    (a.life i).pc = some (a.thread t) ∧
      a'.life i = ⟨(a'.nodes i).progress, (a'.nodes i).buildResult, (a'.nodes i).inputSignature, none⟩ ∧
      ∀ j, j ≠ i → a'.life j = a.life j := by
  refine ⟨h.holder_eq hheld, ?_, life_other h h' (t := t) hnodes ?_ ?_ ?_⟩
  · rw [State.life, holder_eq_none fun u => ?_]
    rw [State.Held, hthread]
    exact h.not_held_of_drop hheld u
  · exact fun u hu => by rw [hthread, Function.update_of_ne hu]
  · exact fun j hj => Option.some.inj (hj.symm.trans hheld)
  · intro j hj
    rw [State.Held, hthread, Function.update_self] at hj
    cases hj

theorem ThreadStep.life (hstep : ThreadStep tbl cfg a t c a' es) (ht : t < cfg.threadCount) (h : NodeInv tbl cfg a)
    (hsched : Sched tbl a) :
    (es = [] ∧ ∀ j, a'.life j = a.life j) ∨
      ∃ i < tbl.maxNodes, ((a.life i).pc = none ∨ (a.life i).pc = some (a.thread t)) ∧
        LifeStep tbl c i (a.life i) (a'.life i) es ∧ ∀ j, j ≠ i → a'.life j = a.life j := by
  have h' := (hstep.nodes ht h hsched).1
  have hother : ∀ (pc : ThreadPc) u, u ≠ t → Function.update a.thread t pc u = a.thread u :=
    fun _ u hu => Function.update_of_ne hu _ _
  -- inside `RunAction` only the place of the thread changes
  have hgo : ∀ {i : Nat} (pc : ThreadPc), (a.thread t).running? = some i → pc.running? = some i →
    NodeInv tbl cfg (a.setThread t pc) →
      i < tbl.maxNodes ∧ (a.life i).pc = some (a.thread t) ∧ (a.life i).progress = .runAction ∧
        (a.setThread t pc).life i = { a.life i with pc := some pc } ∧ ∀ j, j ≠ i →
          (a.setThread t pc).life j = a.life j := by
    intro i pc hrunning hpc hinv
    have hheld : a.Held t i := node?_of_running? hrunning
    have hi := h.held_lt t i hheld
    obtain ⟨hold, hnew, hrest⟩ :=
      life_keep h hinv hheld pc (node?_of_running? hpc) (a.nodes i) (update_nodes_self i) rfl
    exact ⟨hi, hold, ((h.node i hi).running_progress t hrunning).1, hnew, hrest⟩
  cases hstep with
  | idle hpc => exact .inl ⟨rfl, fun _ => rfl⟩
  | acquire hpc hlock =>
      exact .inl ⟨rfl, life_idle h h' rfl (hother _) (by rw [hpc]; rfl) (by simp [ThreadPc.node?])⟩
  | sleep hpc hkeep hring =>
      exact .inl ⟨rfl, life_idle h h' rfl (hother _) (by rw [hpc]; rfl) (by simp [ThreadPc.node?])⟩
  | exit hpc hkeep =>
      exact .inl ⟨rfl, life_idle h h' rfl (hother _) (by rw [hpc]; rfl) (by simp [ThreadPc.node?])⟩
  | @dequeue i rest hpc hkeep hring =>
      have hmem : i ∈ a.ring := by simp [hring]
      have hi := h.ring_lt i hmem
      have hq := ((h.node i hi).ring_iff.mp hmem).1
      have hnotHeld : ∀ u, ¬ a.Held u i := fun u hu => by simp [((h.node i hi).held_flags u hu).1] at hq
      refine .inr ⟨i, hi, .inl (holder_eq_none hnotHeld), ?_,
        life_other h h' (t := t) (fun j hj => by simp [hj]) (hother _) ?_ ?_⟩
      · have hpc' : (a.life i).pc = none := holder_eq_none hnotHeld
        have hlife : (({ a with ring := rest }.setNode i { a.nodes i with queued := false, active := true }).setThread t
            (.advance i)).life i = { a.life i with pc := some (.advance i) } := by
          rw [State.life, h'.holder_eq (t := t) (by simp [State.Held, ThreadPc.node?])]
          simp [State.life]
        rw [hlife]
        exact .dequeue hpc'
      · intro j hj
        simp [State.Held, hpc, ThreadPc.node?] at hj
      · intro j hj
        simpa [State.Held, ThreadPc.node?, eq_comm] using hj
  | @block i hpc hprogress hwait =>
      have hheld := held_advance hpc
      obtain ⟨hold, hnew, hrest⟩ := life_drop h h' hheld (fun j hj => by simp [hj]) rfl
      refine .inr ⟨i, h.held_lt t i hheld, .inr hold, ?_, hrest⟩
      rw [hnew]
      simp only [State.setThread_nodes, State.setNode_nodes, Function.update_self]
      exact .block (hold.trans (by rw [hpc])) hprogress
  | @unblock i hpc hprogress hready =>
      have hheld := held_advance hpc
      obtain ⟨hold, hnew, hrest⟩ := life_keep h h' hheld (.advance i) rfl { a.nodes i with progress := .unblocked } rfl
        (update_thread_self hpc)
      refine .inr ⟨i, h.held_lt t i hheld, .inr hold, ?_, hrest⟩
      rw [hpc] at hold
      rw [hnew, ← hold]
      exact .unblock hold hprogress
  | @enterCheck i hpc hprogress =>
      have hheld := held_advance hpc
      obtain ⟨hold, hnew, hrest⟩ := life_keep h h' hheld (.checkInput i) rfl (a.nodes i) (update_nodes_self i) rfl
      refine .inr ⟨i, h.held_lt t i hheld, .inr hold, ?_, hrest⟩
      rw [hnew]
      exact .enterCheck (hold.trans (by rw [hpc])) hprogress
  | @finishCheck i hpc hlock =>
      have hheld : a.Held t i := by rw [State.Held, hpc]; rfl
      have hprogress := (h.node i (h.held_lt t i hheld)).check_progress t hpc
      obtain ⟨hold, hnew, hrest⟩ := life_keep h h' hheld (.advance i) rfl _ rfl rfl
      refine .inr ⟨i, h.held_lt t i hheld, .inr hold, ?_, hrest⟩
      rw [hnew]
      exact .finishCheck (hold.trans (by rw [hpc])) hprogress
  | @runEmpty i hpc hprogress hempty =>
      have hheld := held_advance hpc
      have hinv := (advance_progress h hsched ht hpc (by simp [State.Completed, hprogress]) (by simp [hprogress])
        .succeeded
        (by simp)).1
      obtain ⟨hold, hnew, hrest⟩ :=
        life_keep h hinv hheld (.advance i) rfl { a.nodes i with progress := .succeeded } rfl
        (update_thread_self hpc)
      refine .inr ⟨i, h.held_lt t i hheld, .inr hold, ?_, fun j hj => life_release.trans (hrest j hj)⟩
      rw [hpc] at hold
      rw [life_release, hnew, ← hold]
      exact .runEmpty hold hprogress hempty
  | @park i hpc hprogress haction hexp hlimit =>
      have hheld := held_advance hpc
      obtain ⟨hold, hnew, hrest⟩ := life_drop h h' hheld (fun j hj => by simp [hj]) rfl
      refine .inr ⟨i, h.held_lt t i hheld, .inr hold, ?_, hrest⟩
      rw [hnew]
      simp only [State.setThread_nodes, State.setNode_nodes, Function.update_self]
      exact .park (hold.trans (by rw [hpc])) hprogress haction
  | @run i hpc hprogress haction hlimit =>
      have hheld := held_advance hpc
      obtain ⟨hold, hnew, hrest⟩ := life_keep h h' hheld (.prepare i) rfl (a.nodes i) (update_nodes_self i) rfl
      refine .inr ⟨i, h.held_lt t i hheld, .inr hold, ?_, hrest⟩
      rw [hnew]
      exact .run (hold.trans (by rw [hpc])) hprogress haction
  | @noDirectories i hpc hdirs =>
      obtain ⟨hi, hold, hprogress, hnew, hrest⟩ := hgo (.relock i none) (by rw [hpc]; rfl) rfl h'
      refine .inr ⟨i, hi, .inr hold, ?_, hrest⟩
      rw [hnew]
      exact .noDirectories (hold.trans (by rw [hpc])) hprogress hdirs
  | @launchPre i hpc hdirs hpre =>
      obtain ⟨hi, hold, hprogress, hnew, hrest⟩ := hgo (.preAction i) (by rw [hpc]; rfl) rfl h'
      refine .inr ⟨i, hi, .inr hold, ?_, hrest⟩
      rw [hnew]
      exact .launchPre (hold.trans (by rw [hpc])) hprogress hdirs hpre
  | @launch i hpc hdirs hpre =>
      obtain ⟨hi, hold, hprogress, hnew, hrest⟩ := hgo (.action i) (by rw [hpc]; rfl) rfl h'
      refine .inr ⟨i, hi, .inr hold, ?_, hrest⟩
      rw [hnew]
      exact .launch (hold.trans (by rw [hpc])) hprogress hdirs hpre
  | @preFailed i hpc hcode =>
      obtain ⟨hi, hold, hprogress, hnew, hrest⟩ := hgo (.relock i (some c.execResult)) (by rw [hpc]; rfl) rfl h'
      refine .inr ⟨i, hi, .inr hold, ?_, hrest⟩
      rw [hnew]
      exact .preFailed (hold.trans (by rw [hpc])) hprogress hcode
  | @launchAfterPre i hpc hcode =>
      obtain ⟨hi, hold, hprogress, hnew, hrest⟩ := hgo (.action i) (by rw [hpc]; rfl) rfl h'
      refine .inr ⟨i, hi, .inr hold, ?_, hrest⟩
      rw [hnew]
      exact .launchAfterPre (hold.trans (by rw [hpc])) hprogress hcode
  | @actionDone i hpc =>
      obtain ⟨hi, hold, hprogress, hnew, hrest⟩ := hgo (.relock i (some c.execResult)) (by rw [hpc]; rfl) rfl h'
      refine .inr ⟨i, hi, .inr hold, ?_, hrest⟩
      rw [hnew]
      exact .actionDone (hold.trans (by rw [hpc])) hprogress
  | @finishAction i result hpc hlock =>
      have hrunning : (a.thread t).running? = some i := by rw [hpc]; rfl
      have hheld : a.Held t i := node?_of_running? hrunning
      have hprogress := ((h.node i (h.held_lt t i hheld)).running_progress t hrunning).1
      have hinv := (relock_progress h hsched ht hpc).1
      obtain ⟨hold, hnew, hrest⟩ := life_keep h hinv hheld (.advance i) rfl _ rfl rfl
      refine .inr ⟨i, h.held_lt t i hheld, .inr hold, ?_, fun j hj => life_release.trans (hrest j hj)⟩
      rw [life_release, hnew]
      exact .finishAction (hold.trans (by rw [hpc])) hprogress
  | @succeed i hpc hprogress =>
      have hheld := held_advance hpc
      obtain ⟨hold, hnew, hrest⟩ := life_keep h h' hheld (.advance i) rfl _ rfl (update_thread_self hpc)
      refine .inr ⟨i, h.held_lt t i hheld, .inr hold, ?_, hrest⟩
      rw [hpc] at hold
      rw [hnew, ← hold]
      exact .succeed hold hprogress
  | @fail i hpc hprogress =>
      have hheld := held_advance hpc
      obtain ⟨hold, hnew, hrest⟩ := life_keep h h' hheld (.advance i) rfl _ rfl (update_thread_self hpc)
      refine .inr ⟨i, h.held_lt t i hheld, .inr hold, ?_, hrest⟩
      rw [hpc] at hold
      rw [hnew, ← hold]
      exact .fail hold hprogress
  | @complete i ws hpc hprogress hnodup hws =>
      have hheld := held_advance hpc
      have hsame : ∀ j, (State.queueAll a.nodes ws j).progress = (a.nodes j).progress ∧
          (State.queueAll a.nodes ws j).buildResult = (a.nodes j).buildResult ∧
          (State.queueAll a.nodes ws j).inputSignature = (a.nodes j).inputSignature := by
        intro j
        by_cases hj : j ∈ ws <;> simp [State.queueAll, hj]
      obtain ⟨hold, hnew, hrest⟩ := life_drop h h' hheld (fun j _ => hsame j) rfl
      refine .inr ⟨i, h.held_lt t i hheld, .inr hold, ?_, hrest⟩
      obtain ⟨hp, hr, hsig⟩ := hsame i
      rw [hnew]
      simp only [State.setThread_nodes, State.pushAll, hp, hr, hsig]
      exact .complete (hold.trans (by rw [hpc])) hprogress

theorem DriverStep.life (hstep : DriverStep tbl cfg a a') (h : Inv tbl cfg a) (j : Nat) : a'.life j = a.life j := by
  have hdriver := h.driver
  cases hstep with
  | @beginPass p hpc hp hlock =>
      have hsame : (State.queueAll a.nodes ((List.range (tbl.passNodeCount p)).map (tbl.passStart p + ·)) j).progress =
            (a.nodes j).progress ∧
          (State.queueAll a.nodes ((List.range (tbl.passNodeCount p)).map (tbl.passStart p + ·)) j).buildResult =
            (a.nodes j).buildResult ∧
          (State.queueAll a.nodes ((List.range (tbl.passNodeCount p)).map (tbl.passStart p + ·)) j).inputSignature =
            (a.nodes j).inputSignature := by
        unfold State.queueAll
        split <;> simp
      obtain ⟨hprogress, hresult, hsignature⟩ := hsame
      simp only [State.life, State.setDriver_nodes, State.beginPass, hprogress, hresult, hsignature]
      rfl
  | @wake p hpc =>
      rw [hpc] at hdriver
      have hother : ∀ u, u ≠ 0 → Function.update a.thread 0 .start u = a.thread u :=
        fun u hu => Function.update_of_ne hu _ _
      have hidle : (a.thread 0).node? = none := by rw [hdriver.1]; rfl
      have h' : NodeInv tbl cfg ((a.setThread 0 .start).setDriver (.loop p)) :=
        h.node.idle cfg.threadCount_pos rfl rfl rfl hother hidle (by simp [ThreadPc.node?])
      exact life_idle h.node h' rfl hother hidle (by simp [ThreadPc.node?]) j
  | _ => rfl

theorem Step.life {act : Action} (hstep : Step tbl cfg a act a' es) (h : Inv tbl cfg a) :
    (es = [] ∧ ∀ j, a'.life j = a.life j) ∨
      ∃ t c i, act = .thread t c ∧ i < tbl.maxNodes ∧ ((a.life i).pc = none ∨ (a.life i).pc = some (a.thread t)) ∧
        LifeStep tbl c i (a.life i) (a'.life i) es ∧ ∀ j, j ≠ i → a'.life j = a.life j := by
  cases hstep with
  | @thread t c _ _ ht hstep =>
      rcases hstep.life ht h.node h.sched with hidle | ⟨i, hi, hpc, hmove, hrest⟩
      · exact .inl hidle
      · exact .inr ⟨t, c, i, rfl, hi, hpc, hmove, hrest⟩
  | signal reason => exact .inl ⟨rfl, fun _ => rfl⟩
  | driver hstep => exact .inl ⟨rfl, hstep.life h⟩

theorem Step.completed {act : Action} (hstep : Step tbl cfg a act a' es) (h : Inv tbl cfg a) (hdone : a.Completed i) :
    (a'.nodes i).buildResult = (a.nodes i).buildResult ∧ (a'.nodes i).inputSignature = (a.nodes i).inputSignature := by
  cases hstep with
  | thread ht hstep => exact ((hstep.frame h.node).completed i hdone).2
  | signal reason => exact ⟨rfl, rfl⟩
  | driver hstep =>
      have hlife := hstep.life h i
      exact ⟨congrArg Life.buildResult hlife, congrArg Life.inputSignature hlife⟩

/-! ### Events -/

/-- How far a node has come, as far as its events are concerned. -/
def Life.rank (l : Life) : Nat :=
  match l.progress with
  | .initial | .blocked => 0
  | .unblocked =>
      match l.pc with
      | some (.checkInput _) => 2
      | _ => 1
  | .runAction =>
      match l.pc with
      | some (.preAction _) => 4
      | some (.action _) | some (.relock _ _) => 5
      | _ => 3
  | .succeeded | .upToDate | .failed | .completed => 6

end Tundra.Spec

namespace Tundra

def Event.node : Event → Nat
  | .dequeue i | .checkInput i | .launchPre i | .launch i => i

/-- The rank an event takes its node to; a node may leave the ring several times. -/
def Event.mark : Event → Nat
  | .dequeue _ => 0
  | .checkInput _ => 2
  | .launchPre _ => 4
  | .launch _ => 5

namespace Spec

variable {tbl : NodeTable} {cfg : Config} {a a' : State} {i : Nat} {c : Choice} {es : List Event} {l l' : Life}

theorem LifeStep.rank_le (hstep : LifeStep tbl c i l l' es) : l.rank ≤ l'.rank := by
  cases hstep with
  | finishCheck hpc hprogress =>
      rcases checkInputSignature_cases (tbl.data i) (tbl.mmapState i) c.signature c.outputsMissing with hv | hv <;>
        simp [Life.rank, hpc, hprogress, hv]
  | @finishAction result hpc hprogress =>
      rcases State.exitProgress_cases result with hp | hp <;> simp [Life.rank, hpc, hprogress, hp]
  | unblock hpc hprogress => rcases hprogress with hp | hp <;> simp [Life.rank, hp]
  | succeed hpc hprogress => rcases hprogress with hp | hp <;> simp [Life.rank, hp]
  | dequeue hpc => cases hp : l.progress <;> simp [Life.rank, hpc, hp]
  | _ => simp_all [Life.rank]

/-- A move emits at most one event, about its own node, and passes the event's mark. -/
theorem LifeStep.events (hstep : LifeStep tbl c i l l' es) :
    es.length ≤ 1 ∧ ∀ e ∈ es, e.node = i ∧ (0 < e.mark → l.rank < e.mark ∧ e.mark ≤ l'.rank) := by
  cases hstep <;> simp_all [Event.node, Event.mark, Life.rank]

/-- Every event but `dequeue` happens at most once to a node, and not before the node has come to its mark. -/
def Counted (a : State) (tr : List Event) : Prop :=
  ∀ e : Event, 0 < e.mark → tr.count e ≤ 1 ∧ ((a.life e.node).rank < e.mark → tr.count e = 0)

theorem Step.counted {act : Action} {tr : List Event} (hstep : Step tbl cfg a act a' es) (h : Inv tbl cfg a)
    (hcount : Counted a tr) :
    Counted a' (tr ++ es) := by
  intro e he
  obtain ⟨hle, hzero⟩ := hcount e he
  rcases hstep.life h with ⟨rfl, hsame⟩ | ⟨t, c, i, -, -, -, hmove, hrest⟩
  · rw [List.append_nil, hsame]
    exact ⟨hle, hzero⟩
  · obtain ⟨hlen, hevents⟩ := hmove.events
    rw [List.count_append]
    by_cases hmem : e ∈ es
    · obtain ⟨hnode, hmark⟩ := hevents e hmem
      obtain ⟨hbefore, hafter⟩ := hmark he
      rw [← hnode] at hbefore hafter
      have hfirst := hzero hbefore
      have hone : es.count e ≤ 1 := le_trans List.count_le_length hlen
      exact ⟨by omega, fun hlt => absurd hafter (by omega)⟩
    · rw [List.count_eq_zero_of_not_mem hmem, add_zero]
      refine ⟨hle, fun hlt => hzero ?_⟩
      by_cases hnode : e.node = i
      · rw [hnode] at hlt ⊢
        exact lt_of_le_of_lt hmove.rank_le hlt
      · rwa [hrest e.node hnode] at hlt

end Spec

end Tundra
