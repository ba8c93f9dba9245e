import Tundra.Queue.Safety

/-!
# Failures

What a failed node does to the rest of the build. With the build set to stop on errors no node gets past its
dependencies unless all of them succeeded: the thread that takes a node from the ring has seen that nothing
failed, and keeps the lock until it knows whether the node is ready. With the build set to go on, every pass up
to the first one with a failure is run to its end.
-/

namespace Tundra

variable {tbl : NodeTable} {cfg : Config} {s s' : State} {a a' : Spec.State} {tr es : List Event} {act : Action}
  {i t : Nat}

namespace Spec

/-- A thread that has yet to look at its node's dependencies has seen no failure, and a node past its
dependencies has none that failed. -/
structure Clean (tbl : NodeTable) (a : State) : Prop where
  fresh : ∀ i < tbl.maxNodes, (a.life i).pc = some (.advance i) →
    (a.life i).progress = .initial ∨ (a.life i).progress = .blocked →
    a.failedNodeCount ≤ 0
  deps : ∀ i < tbl.maxNodes, (a.life i).progress ≠ .initial → (a.life i).progress ≠ .blocked →
    ∀ d ∈ tbl.deps i, (a.nodes d).buildResult = 0

/-- A failure is counted by the thread that has the failed node and the lock. -/
theorem Step.failedNodeCount (hstep : Step tbl cfg a act a' es) :
    a'.failedNodeCount = a.failedNodeCount ∨ a'.failedNodeCount = 0 ∨
      ∃ t i, a.thread t = .advance i ∧ (a.nodes i).progress = .failed := by
  cases hstep with
  | signal reason => exact .inl rfl
  | driver hstep =>
      cases hstep with
      | beginPass hpc hp hlock => exact .inr (.inl rfl)
      | _ => exact .inl rfl
  | @thread t c _ _ ht hstep =>
      have hrelease : ∀ (b : State) i, (b.release tbl i).failedNodeCount = b.failedNodeCount := by
        intro b i
        obtain ⟨_, _, _, _, heq, -⟩ := b.release_eq tbl i
        rw [heq]
      cases hstep with
      | fail hpc hprogress => exact .inr (.inr ⟨t, _, hpc, hprogress⟩)
      | runEmpty hpc hprogress hempty => exact .inl (hrelease _ _)
      | finishAction hpc hlock => exact .inl (hrelease _ _)
      | _ => exact .inl rfl

/-- The thread with a fresh node keeps the lock, so nobody else counts a failure. -/
theorem Inv.failed_le (h : Inv tbl cfg a) (hstep : Step tbl cfg a act a' es) (hpc : (a.life i).pc = some (.advance i))
    (hprogress : (a.life i).progress ≠ .failed) (hzero : a.failedNodeCount ≤ 0) : a'.failedNodeCount ≤ 0 := by
  rcases hstep.failedNodeCount with hsame | hnone | ⟨t, j, ht, hfailed⟩
  · rwa [hsame]
  · exact hnone.le
  · obtain ⟨u, hu, -⟩ := holder_some hpc
    obtain rfl : u = t := LockOk.unique h.lock (by rw [hu]; rfl) (by rw [ht]; rfl)
    obtain rfl : i = j := ThreadPc.advance.inj (hu.symm.trans ht)
    exact absurd hfailed hprogress

/-- The moves that bring a node in front of its dependencies, and past them. -/
theorem LifeStep.fresh {c : Choice} {l l' : Life} (hstep : LifeStep tbl c i l l' es) (hpc : l'.pc = some (.advance i))
    (hprogress : l'.progress = .initial ∨ l'.progress = .blocked) : es = [.dequeue i] := by
  cases hstep with
  | finishCheck hpc' hprogress' =>
      rcases checkInputSignature_cases (tbl.data i) (tbl.mmapState i) c.signature c.outputsMissing with hv | hv <;>
        simp [hv] at hprogress
  | @finishAction result hpc' hprogress' =>
      rcases State.exitProgress_cases result with hp | hp <;> simp [hp] at hprogress
  | _ => simp_all

theorem LifeStep.past {c : Choice} {l l' : Life} (hstep : LifeStep tbl c i l l' es) (hinitial : l'.progress ≠ .initial)
    (hblocked : l'.progress ≠ .blocked) :
    (l.progress ≠ .initial ∧ l.progress ≠ .blocked) ∨
      l.pc = some (.advance i) ∧ (l.progress = .initial ∨ l.progress = .blocked) ∧ l'.progress = .unblocked := by
  cases hstep with
  | succeed hpc hprogress => rcases hprogress with hp | hp <;> simp [hp]
  | _ => simp_all

/-- A node is taken from the ring only while no failure is counted. -/
theorem Step.dequeue_failed (hstep : Step tbl cfg a act a' es) (h : Inv tbl cfg a) (hstop : cfg.continueOnError = false)
    (he : .dequeue i ∈ es) : a'.failedNodeCount ≤ 0 := by
  obtain ⟨t, hpc, hkeep, -⟩ := hstep.dequeue_inv he
  have hzero : a.failedNodeCount ≤ 0 := not_lt.mp fun hpos => hkeep.2.1 ⟨hpos, hstop⟩
  rcases hstep.failedNodeCount with hsame | hnone | ⟨u, j, hu, -⟩
  · rwa [hsame]
  · exact hnone.le
  · obtain rfl : t = u := LockOk.unique h.lock (by rw [hpc]; rfl) (by rw [hu]; rfl)
    simp [hpc] at hu

theorem Step.clean (hstep : Step tbl cfg a act a' es) (h : Inv tbl cfg a) (h' : Inv tbl cfg a')
    (hstop : cfg.continueOnError = false) (hclean : Clean tbl a) : Clean tbl a' := by
  have hfresh : ∀ j < tbl.maxNodes, (a.life j).pc = some (.advance j) →
      (a.life j).progress = .initial ∨ (a.life j).progress = .blocked → a'.failedNodeCount ≤ 0 := by
    intro j hj hpc hprogress
    refine h.failed_le hstep hpc ?_ (hclean.fresh j hj hpc hprogress)
    rcases hprogress with hp | hp <;> simp [hp]
  have hpast : ∀ j < tbl.maxNodes, (a.life j).progress ≠ .initial → (a.life j).progress ≠ .blocked →
      ∀ d ∈ tbl.deps j, (a'.nodes d).buildResult = 0 := by
    intro j hj hinitial hblocked d hd
    have hdone := h.sched.ready j hj hinitial (fun hb => absurd hb hblocked) d hd
    rw [(hstep.completed h hdone).1]
    exact hclean.deps j hj hinitial hblocked d hd
  rcases hstep.life h with ⟨-, hsame⟩ | ⟨t, c, i, -, -, -, hmove, hrest⟩
  · constructor
    · intro j hj
      rw [hsame]
      exact hfresh j hj
    · intro j hj
      rw [hsame]
      exact hpast j hj
  · constructor
    · intro j hj hpc hprogress
      by_cases hji : j = i
      · subst hji
        have hes := hmove.fresh hpc hprogress
        exact hstep.dequeue_failed h hstop (i := j) (by simp [hes])
      · rw [hrest j hji] at hpc hprogress
        exact hfresh j hj hpc hprogress
    · intro j hj hinitial hblocked
      by_cases hji : j = i
      · subst hji
        rcases hmove.past hinitial hblocked with ⟨hinitial', hblocked'⟩ | ⟨hpc, hprogress, -⟩
        · exact hpast j hj hinitial' hblocked'
        · -- nothing has failed so far, in particular none of the dependencies
          intro d hd
          exact h'.sched.no_failure (hfresh j hj hpc hprogress) (NodeTable.lt_of_mem_deps hd)
      · rw [hrest j hji] at hinitial hblocked
        exact hpast j hj hinitial hblocked

/-- `CheckInputSignature` finds the node as its previous record has it. -/
def UpToDate (tbl : NodeTable) (i : Nat) (signature : HashDigest) : Prop :=
  checkInputSignature (tbl.data i) (tbl.mmapState i) signature false = .upToDate

/-- What a node has been through when it stands where it stands. -/
def Ran (tbl : NodeTable) (i : Nat) (tr : List Event) (l : Life) : Prop :=
  match l.progress with
  | .initial | .blocked => True
  | .unblocked => l.pc = some (.checkInput i) → .checkInput i ∈ tr
  | .runAction => .checkInput i ∈ tr ∧ (l.pc = some (.action i) → .launch i ∈ tr) ∧
      ∀ r, l.pc = some (.relock i (some r)) → r.returnCode = 0 → .launch i ∈ tr
  | .succeeded => .checkInput i ∈ tr ∧ (.launch i ∈ tr ∨ (tbl.data i).action.bytes = [])
  | .upToDate => .checkInput i ∈ tr ∧ UpToDate tbl i l.inputSignature
  | .failed => .checkInput i ∈ tr
  | .completed => .checkInput i ∈ tr ∧
      (.launch i ∈ tr ∨ (tbl.data i).action.bytes = [] ∨ UpToDate tbl i l.inputSignature ∨ l.buildResult ≠ 0)

theorem Ran.mono {l : Life} (h : Ran tbl i tr l) (es : List Event) : Ran tbl i (tr ++ es) l := by
  unfold Ran at h ⊢
  cases hp : l.progress <;> simp only [hp, List.mem_append] at h ⊢ <;> tauto

theorem upToDate_of_check {c : Choice}
    (h : checkInputSignature (tbl.data i) (tbl.mmapState i) c.signature c.outputsMissing = .upToDate) :
    UpToDate tbl i c.signature := by
  unfold UpToDate
  cases hprev : tbl.mmapState i with
  | none => simp [hprev, checkInputSignature] at h
  | some prev =>
      simp only [hprev, checkInputSignature] at h ⊢
      split_ifs at h ⊢ <;> simp_all

theorem LifeStep.ran {c : Choice} {l l' : Life} (hstep : LifeStep tbl c i l l' es) (hran : Ran tbl i tr l) :
    Ran tbl i (tr ++ es) l' := by
  have hran' := hran.mono es
  cases hstep with
  | dequeue hpc => cases hp : l.progress <;> simp_all [Ran]
  | finishCheck hpc hprogress =>
      have hchecked : .checkInput i ∈ tr := by simpa [Ran, hprogress, hpc] using hran
      rcases checkInputSignature_cases (tbl.data i) (tbl.mmapState i) c.signature c.outputsMissing with hv | hv
      · simp [Ran, hv, hchecked]
      · simp only [Ran, hv, List.append_nil]
        exact ⟨hchecked, upToDate_of_check hv⟩
  | @finishAction result hpc hprogress =>
      simp only [Ran, hprogress, hpc] at hran
      cases result with
      | none => simp [Ran, State.exitProgress, hran.1]
      | some r =>
          by_cases hcode : r.returnCode = 0
          · simp [Ran, State.exitProgress, hcode, hran.1, hran.2.2 r rfl hcode]
          · simp [Ran, State.exitProgress, hcode, hran.1]
  | succeed hpc hprogress => rcases hprogress with hp | hp <;> simp_all [Ran]; tauto
  | _ => simp_all [Ran]

theorem LifeStep.launched {c : Choice} {l l' : Life} {k : Nat} (hstep : LifeStep tbl c k l l' es)
    (he : .launchPre i ∈ es ∨ .launch i ∈ es) : i = k ∧ l.progress = .runAction := by
  cases hstep <;> simp_all

theorem Step.ran (hstep : Step tbl cfg a act a' es) (h : Inv tbl cfg a)
    (hran : ∀ i < tbl.maxNodes, Ran tbl i tr (a.life i)) :
    ∀ i < tbl.maxNodes, Ran tbl i (tr ++ es) (a'.life i) := by
  intro j hj
  rcases hstep.life h with ⟨rfl, hsame⟩ | ⟨t, c, i, -, -, -, hmove, hrest⟩
  · rw [hsame, List.append_nil]
    exact hran j hj
  · by_cases hji : j = i
    · subst hji
      exact hmove.ran (hran j hj)
    · rw [hrest j hji]
      exact (hran j hj).mono es

end Spec

theorem reach_clean (hreach : Reaches tbl cfg s tr) (hstop : cfg.continueOnError = false) :
    Spec.Clean tbl (s.spec tbl) := by
  obtain ⟨a, hrep, -, hclean⟩ := reach_invariant (P := fun a _ => Spec.Clean tbl a)
    (by
      constructor
      · intro i _ _ _
        exact le_refl 0
      · intro i _ hinitial
        exact absurd rfl hinitial)
    (fun s a tr act a' es _ hinv hclean _ hstep => hstep.clean hinv (hstep.inv hinv) hstop hclean) hreach
  rw [hrep.spec]
  exact hclean

theorem reach_ran (hreach : Reaches tbl cfg s tr) : ∀ i < tbl.maxNodes, Spec.Ran tbl i tr ((s.spec tbl).life i) := by
  obtain ⟨a, hrep, -, hran⟩ := reach_invariant (P := fun a tr => ∀ i < tbl.maxNodes, Spec.Ran tbl i tr (a.life i))
    (fun _ _ => trivial) (fun s a tr act a' es _ hinv hran _ hstep => hstep.ran hinv hran) hreach
  rw [hrep.spec]
  exact hran

def Config.keepGoing : Config := ⟨true, 1, 1, Nat.one_pos, Int.one_pos⟩

/-- A step of the main thread in which a process, if one is waited for, exits with code 1. -/
def Action.failing : Action := .thread 0 { execResult := ⟨1, false⟩ }

/-- What is done to the nodes of the staged table when the first one fails. -/
theorem staged_reaches :
    ∃ s tr, Reaches .staged .keepGoing s tr ∧ s.driver = .done .buildError ∧ s.signalReason = none ∧
    (s.nodes 0).buildResult = 1 ∧ (s.nodes 2).progress = .initial ∧ .checkInput 2 ∉ tr := by
  have hexec : (Transition.exec (buildSystem .staged .keepGoing)
      ([.driver, .driver] ++ List.replicate 11 .failing ++ List.replicate 11 (.thread 0 {}) ++ List.replicate 6 .driver)
      (.init .keepGoing, [])).map (fun c => (c.1.driver, c.1.signalReason, c.1.nodes 0, c.1.nodes 2, decide (.checkInput 2 ∉ c.2))) =
      some (.done .buildError, none, ⟨false, true, .completed, 1, ⟨0, 0⟩⟩, .fresh, true) := by
    decide +kernel
  obtain ⟨s, tr, hreach, hview⟩ := Transition.exists_reach_of_exec (fun _ _ _ => trivial) hexec
  simp only [Prod.mk.injEq, decide_eq_true_eq] at hview
  obtain ⟨hdone, hsignal, hfirst, hlast, hcheck⟩ := hview
  exact ⟨s, tr, hreach, hdone, hsignal, by rw [hfirst], by rw [hlast]; rfl, hcheck⟩

/-- Three nodes of one pass, the third after the second. -/
def NodeTable.apart : NodeTable :=
  .whole [{ NodeData.empty with action := .run }, { NodeData.empty with action := .run, backLinks := [2] },
    { NodeData.empty with action := .run, dependencies := [1] }] 1 (fun _ => none) (by decide)

end Tundra
