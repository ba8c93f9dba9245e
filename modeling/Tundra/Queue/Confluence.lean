import Tundra.Queue.Safety

/-!
# The result of a build does not depend on the schedule

An `Oracle` answers the environment's questions from the node and the results and signatures of its dependencies
alone. `Follows` says of a node, at every place of its life, that it has so far done what the oracle determines;
since a dependency does not change once it is completed, every move of the node keeps it. Two runs with the same
oracle then agree on every node, by induction along the dependencies.
-/

namespace Tundra

/-- The environment's answers as functions of a node and of what its dependencies came to, in the order of
`m_Dependencies`. -/
structure Oracle where
  signature : Nat → List (Int32 × HashDigest) → HashDigest
  outputsMissing : Nat → List (Int32 × HashDigest) → Bool
  directoriesMade : Nat → List (Int32 × HashDigest) → Bool
  preResult : Nat → List (Int32 × HashDigest) → ExecResult
  execResult : Nat → List (Int32 × HashDigest) → ExecResult

/-- What the dependencies of a node came to. -/
def NodeTable.view (tbl : NodeTable) (nodes : Nat → NodeState) (i : Nat) : List (Int32 × HashDigest) :=
  (tbl.deps i).map fun d => ((nodes d).buildResult, (nodes d).inputSignature)

/-- The step's label carries the oracle's answers where the step reads them. -/
def Oracle.Answers (o : Oracle) (tbl : NodeTable) (s : State) : Action → Prop
  | .thread t c =>
      match s.thread t with
      | .checkInput i =>
          c.signature = o.signature i (tbl.view s.nodes i) ∧ c.outputsMissing = o.outputsMissing i (tbl.view s.nodes i)
      | .prepare i => c.directoriesMade = o.directoriesMade i (tbl.view s.nodes i)
      | .preAction i => c.execResult = o.preResult i (tbl.view s.nodes i)
      | .action i => c.execResult = o.execResult i (tbl.view s.nodes i)
      | _ => True
  | _ => True

namespace Oracle

variable (o : Oracle) (tbl : NodeTable) (i : Nat) (v : List (Int32 × HashDigest))

/-- What `CheckInputSignature` returns. -/
def verdict :
    BuildProgress := checkInputSignature (tbl.data i) (tbl.mmapState i) (o.signature i v) (o.outputsMissing i v)

/-- The node has an action and `CheckInputSignature` asks for it. -/
def Runs : Prop := o.verdict tbl i v = .runAction ∧ (tbl.data i).action.bytes ≠ []

def LaunchesPre : Prop := o.Runs tbl i v ∧ o.directoriesMade i v = true ∧ (tbl.data i).preAction.isSome = true

def PreFails : Prop := (tbl.data i).preAction.isSome = true ∧ (o.preResult i v).returnCode ≠ 0

def Launches : Prop := o.Runs tbl i v ∧ o.directoriesMade i v = true ∧ ¬ o.PreFails tbl i v

open Classical in
/-- What `RunAction` comes back with. -/
noncomputable def exit : Option ExecResult :=
  if o.directoriesMade i v = false then none
  else if o.PreFails tbl i v then some (o.preResult i v)
  else some (o.execResult i v)

open Classical in
/-- The `m_BuildResult` of the completed node. -/
noncomputable def result : Int32 :=
  if o.Runs tbl i v ∧ Spec.State.exitProgress (o.exit tbl i v) = .failed then 1 else 0

/-- The launches are the ones the oracle determines. -/
def Launched (tr : List Event) : Prop :=
  (.launchPre i ∈ tr ↔ o.LaunchesPre tbl i v) ∧ (.launch i ∈ tr ↔ o.Launches tbl i v)

/-- Nothing has been launched yet. -/
def Unlaunched (tr : List Event) : Prop := .launchPre i ∉ tr ∧ .launch i ∉ tr

/-- The node has done what the oracle determines, as far as it has come. -/
def Follows (tr : List Event) (l : Spec.Life) : Prop :=
  match l.progress with
  | .initial | .blocked | .unblocked => l.inputSignature = ⟨0, 0⟩ ∧ Unlaunched i tr
  | .runAction =>
      l.inputSignature = o.signature i v ∧ o.verdict tbl i v = .runAction ∧
        match l.pc with
        | some (.prepare _) => o.Runs tbl i v ∧ Unlaunched i tr
        | some (.preAction _) => o.LaunchesPre tbl i v ∧ .launchPre i ∈ tr ∧ .launch i ∉ tr
        | some (.action _) => o.Launches tbl i v ∧ o.Launched tbl i v tr
        | some (.relock _ r) => o.Runs tbl i v ∧ r = o.exit tbl i v ∧ o.Launched tbl i v tr
        | _ => Unlaunched i tr
  | .succeeded | .upToDate => l.inputSignature = o.signature i v ∧ o.result tbl i v = 0 ∧ o.Launched tbl i v tr
  | .failed => l.inputSignature = o.signature i v ∧ o.result tbl i v = 1 ∧ o.Launched tbl i v tr
  | .completed => l.inputSignature = o.signature i v ∧ l.buildResult = o.result tbl i v ∧ o.Launched tbl i v tr

/-- The oracle's answers at a place of the node. -/
def AnswersAt (c : Choice) : Option ThreadPc → Prop
  | some (.checkInput _) => c.signature = o.signature i v ∧ c.outputsMissing = o.outputsMissing i v
  | some (.prepare _) => c.directoriesMade = o.directoriesMade i v
  | some (.preAction _) => c.execResult = o.preResult i v
  | some (.action _) => c.execResult = o.execResult i v
  | _ => True

end Oracle

variable {o : Oracle} {tbl : NodeTable} {i : Nat} {v : List (Int32 × HashDigest)} {tr es : List Event} {c : Choice}
  {l l' : Spec.Life}

theorem Oracle.launched_of_not_runs (hruns : ¬ o.Runs tbl i v) (h : Oracle.Unlaunched i tr) :
    o.result tbl i v = 0 ∧ o.Launched tbl i v tr := by
  refine ⟨if_neg fun hr => hruns hr.1, ?_, ?_⟩
  · exact iff_of_false h.1 fun hl => hruns hl.1
  · exact iff_of_false h.2 fun hl => hruns hl.1

theorem Spec.LifeStep.follows (hstep : Spec.LifeStep tbl c i l l' es) (hanswers : o.AnswersAt i v c l.pc)
    (h : o.Follows tbl i v tr l) : o.Follows tbl i v (tr ++ es) l' := by
  cases hstep with
  | dequeue hpc =>
      unfold Oracle.Follows at h ⊢
      rw [hpc] at h
      cases hp : l.progress <;> simp only [hp] at h ⊢ <;> simpa [Oracle.Unlaunched, Oracle.Launched] using h
  | block hpc hprogress => simpa [Oracle.Follows, hprogress] using h
  | unblock hpc hprogress => rcases hprogress with hp | hp <;> simpa [Oracle.Follows, hp] using h
  | enterCheck hpc hprogress => simpa [Oracle.Follows, Oracle.Unlaunched, hprogress] using h
  | finishCheck hpc hprogress =>
      rw [hpc] at hanswers
      obtain ⟨hsignature, hmissing⟩ := hanswers
      rw [List.append_nil]
      simp only [Oracle.Follows, hprogress] at h
      have hverdict : checkInputSignature (tbl.data i) (tbl.mmapState i) c.signature c.outputsMissing =
        o.verdict tbl i v := by
        rw [hsignature, hmissing, Oracle.verdict]
      rw [hverdict]
      rcases checkInputSignature_cases (tbl.data i) (tbl.mmapState i) (o.signature i v) (o.outputsMissing i v) with
        hv | hv
      · have hv' : o.verdict tbl i v = .runAction := hv
        simp only [Oracle.Follows, hv']
        exact ⟨hsignature, trivial, h.2⟩
      · have hv' : o.verdict tbl i v = .upToDate := hv
        simp only [Oracle.Follows, hv']
        have hruns : ¬ o.Runs tbl i v := fun hr => by simp [hr.1] at hv'
        exact ⟨hsignature, Oracle.launched_of_not_runs hruns h.2⟩
  | runEmpty hpc hprogress hempty =>
      rw [List.append_nil]
      simp only [Oracle.Follows, hprogress, hpc] at h ⊢
      have hruns : ¬ o.Runs tbl i v := fun hr => hr.2 hempty
      exact ⟨h.1, Oracle.launched_of_not_runs hruns h.2.2⟩
  | park hpc hprogress haction =>
      rw [List.append_nil]
      simp only [Oracle.Follows, hprogress, hpc] at h ⊢
      exact h
  | run hpc hprogress haction =>
      rw [List.append_nil]
      simp only [Oracle.Follows, hprogress, hpc] at h ⊢
      exact ⟨h.1, h.2.1, ⟨h.2.1, haction⟩, h.2.2⟩
  | noDirectories hpc hprogress hdirs =>
      rw [hpc] at hanswers
      have hnone : o.directoriesMade i v = false := hanswers.symm.trans hdirs
      rw [List.append_nil]
      simp only [Oracle.Follows, hprogress, hpc] at h ⊢
      obtain ⟨hsignature, hverdict, hruns, hunlaunched⟩ := h
      refine ⟨hsignature, hverdict, hruns, ?_, ?_, ?_⟩
      · rw [Oracle.exit, if_pos hnone]
      · exact iff_of_false hunlaunched.1 fun hl => by simp [hl.2.1] at hnone
      · exact iff_of_false hunlaunched.2 fun hl => by simp [hl.2.1] at hnone
  | launchPre hpc hprogress hdirs hpre =>
      rw [hpc] at hanswers
      have hmade : o.directoriesMade i v = true := hanswers.symm.trans hdirs
      simp only [Oracle.Follows, hprogress, hpc] at h ⊢
      obtain ⟨hsignature, hverdict, hruns, hunlaunched⟩ := h
      exact ⟨hsignature, hverdict, ⟨hruns, hmade, hpre⟩, by simp, by simp [hunlaunched.2]⟩
  | launch hpc hprogress hdirs hpre =>
      rw [hpc] at hanswers
      have hmade : o.directoriesMade i v = true := hanswers.symm.trans hdirs
      simp only [Oracle.Follows, hprogress, hpc] at h ⊢
      obtain ⟨hsignature, hverdict, hruns, hunlaunched⟩ := h
      have hlaunches : o.Launches tbl i v := ⟨hruns, hmade, fun hf => absurd hf.1 (by simp [hpre])⟩
      refine ⟨hsignature, hverdict, hlaunches, ?_, ?_⟩
      · exact iff_of_false (by simp [hunlaunched.1]) fun hl => absurd hl.2.2 (by simp [hpre])
      · exact iff_of_true (by simp) hlaunches
  | preFailed hpc hprogress hcode =>
      rw [hpc] at hanswers
      have hanswer : c.execResult = o.preResult i v := hanswers
      rw [List.append_nil]
      simp only [Oracle.Follows, hprogress, hpc] at h ⊢
      obtain ⟨hsignature, hverdict, hpre, hlaunched, hunlaunched⟩ := h
      have hfails : o.PreFails tbl i v := ⟨hpre.2.2, hanswer ▸ hcode⟩
      refine ⟨hsignature, hverdict, hpre.1, ?_, iff_of_true hlaunched hpre, ?_⟩
      · rw [Oracle.exit, if_neg (by simp [hpre.2.1]), if_pos hfails, hanswer]
      · exact iff_of_false hunlaunched fun hl => hl.2.2 hfails
  | launchAfterPre hpc hprogress hcode =>
      rw [hpc] at hanswers
      have hanswer : c.execResult = o.preResult i v := hanswers
      simp only [Oracle.Follows, hprogress, hpc] at h ⊢
      obtain ⟨hsignature, hverdict, hpre, hlaunched, -⟩ := h
      have hlaunches : o.Launches tbl i v := ⟨hpre.1, hpre.2.1, fun hf => hf.2 (hanswer ▸ hcode)⟩
      exact ⟨hsignature, hverdict, hlaunches, iff_of_true (by simp [hlaunched]) hpre, iff_of_true (by simp) hlaunches⟩
  | actionDone hpc hprogress =>
      rw [hpc] at hanswers
      have hanswer : c.execResult = o.execResult i v := hanswers
      rw [List.append_nil]
      simp only [Oracle.Follows, hprogress, hpc] at h ⊢
      obtain ⟨hsignature, hverdict, hlaunches, hlaunched⟩ := h
      refine ⟨hsignature, hverdict, hlaunches.1, ?_, hlaunched⟩
      rw [Oracle.exit, if_neg (by simp [hlaunches.2.1]), if_neg hlaunches.2.2, hanswer]
  | @finishAction result hpc hprogress =>
      rw [List.append_nil]
      simp only [Oracle.Follows, hprogress, hpc] at h
      obtain ⟨hsignature, -, hruns, hresult, hlaunched⟩ := h
      subst hresult
      rcases Spec.State.exitProgress_cases (o.exit tbl i v) with hp | hp
      · simp only [Oracle.Follows, hp]
        refine ⟨hsignature, if_neg fun hr => ?_, hlaunched⟩
        simp [hp] at hr
      · simp only [Oracle.Follows, hp]
        exact ⟨hsignature, if_pos ⟨hruns, hp⟩, hlaunched⟩
  | succeed hpc hprogress =>
      rw [List.append_nil]
      rcases hprogress with hp | hp
      · simp only [Oracle.Follows, hp] at h ⊢
        exact ⟨h.1, h.2.1.symm, h.2.2⟩
      · simp only [Oracle.Follows, hp] at h ⊢
        exact ⟨h.1, h.2.1.symm, h.2.2⟩
  | fail hpc hprogress =>
      rw [List.append_nil]
      simp only [Oracle.Follows, hprogress] at h ⊢
      exact ⟨h.1, h.2.1.symm, h.2.2⟩
  | complete hpc hprogress =>
      rw [List.append_nil]
      simpa only [Oracle.Follows, hprogress] using h

variable {cfg : Config} {a a' : Spec.State} {act : Action} {s : Tundra.State}

theorem Oracle.Follows.of_early {w : List (Int32 × HashDigest)} (h : o.Follows tbl i v tr l)
    (hearly : l.progress = .initial ∨ l.progress = .blocked) : o.Follows tbl i w tr l := by
  rcases hearly with hp | hp <;> simpa only [Oracle.Follows, hp] using h

theorem Oracle.Follows.of_trace {tr' : List Event} (h : o.Follows tbl i v tr l)
    (hpre : .launchPre i ∈ tr' ↔ .launchPre i ∈ tr) (hlaunch : .launch i ∈ tr' ↔ .launch i ∈ tr) :
    o.Follows tbl i v tr' l := by
  simpa only [Oracle.Follows, Oracle.Unlaunched, Oracle.Launched, hpre, hlaunch] using h

/-- What a node sees of its dependencies does not change once they are completed. -/
theorem Spec.Step.view (hstep : Spec.Step tbl cfg a act a' es) (h : Spec.Inv tbl cfg a) (hready : a.Ready tbl i) :
    tbl.view a'.nodes i = tbl.view a.nodes i := by
  apply List.map_congr_left
  intro d hd
  obtain ⟨hresult, hsignature⟩ := hstep.completed h (hready d hd)
  rw [hresult, hsignature]

/-- Every node is on the oracle's way. -/
def Oracle.AllFollow (o : Oracle) (tbl : NodeTable) (a : Spec.State) (tr : List Event) : Prop :=
  ∀ i < tbl.maxNodes, o.Follows tbl i (tbl.view a.nodes i) tr (a.life i)

/-- A node whose dependencies are not all completed has not come far. -/
theorem Spec.Inv.early_of_not_ready (h : Spec.Inv tbl cfg a) (hi : i < tbl.maxNodes) (hready : ¬ a.Ready tbl i) :
    (a.nodes i).progress = .initial ∨ (a.nodes i).progress = .blocked := by
  by_contra hnot
  simp only [not_or] at hnot
  exact hready (h.sched.ready i hi hnot.1 fun hblocked => absurd hblocked hnot.2)

/-- The answers a step carries are the oracle's answers at the place of the node it moves. -/
theorem Oracle.Answers.at_life {t : Nat} (hrep : Rep tbl s a) (hanswers : o.Answers tbl s (.thread t c))
    (hpc : (a.life i).pc = none ∨ (a.life i).pc = some (a.thread t)) :
    o.AnswersAt i (tbl.view a.nodes i) c (a.life i).pc := by
  rcases hpc with hnone | hsome
  · rw [hnone]
    trivial
  · have hheld : (a.thread t).node? = some i := by
      obtain ⟨u, hu, hheld⟩ := Spec.holder_some hsome
      rwa [← hu]
    have hthread := hrep.thread t
    rw [hsome]
    simp only [Oracle.Answers, hrep.nodes] at hanswers
    cases hs : s.thread t <;> rw [hs] at hthread hanswers <;> rw [hthread] at hheld ⊢ <;>
      simp_all [ThreadPc.quiet, ThreadPc.node?, Oracle.AnswersAt]

theorem Spec.Step.allFollow (hstep : Spec.Step tbl cfg a act a' es) (h : Spec.Inv tbl cfg a) (hrep : Rep tbl s a)
    (hanswers : o.Answers tbl s act) (hfollow : o.AllFollow tbl a tr) : o.AllFollow tbl a' (tr ++ es) := by
  intro j hj
  have hj' := hfollow j hj
  -- the view of `j` only changes while `j` does not depend on it
  have hview : o.Follows tbl j (tbl.view a'.nodes j) tr (a.life j) := by
    by_cases hready : a.Ready tbl j
    · rwa [hstep.view h hready]
    · exact hj'.of_early (h.early_of_not_ready hj hready)
  rcases hstep.life h with ⟨rfl, hsame⟩ | ⟨t, c, i, rfl, hi, hpc, hmove, hrest⟩
  · rw [List.append_nil, hsame]
    exact hview
  · by_cases hji : j = i
    · subst hji
      have hat := Oracle.Answers.at_life hrep hanswers hpc
      by_cases hready : a.Ready tbl j
      · rw [hstep.view h hready]
        exact hmove.follows hat hj'
      · refine hmove.follows ?_ hview
        -- a node that waits for its dependencies is not where an answer is read
        have hearly := h.early_of_not_ready hj hready
        rcases hpc with hnone | hsome
        · rw [hnone]
          trivial
        · obtain ⟨u, hu, hheld⟩ := Spec.holder_some hsome
          have hadvance := h.node.held_at hheld (by rcases hearly with hp | hp <;> simp [hp])
            (by rcases hearly with hp | hp <;> simp [hp])
          rw [hsome, ← hu, hadvance]
          trivial
    · rw [hrest j hji]
      have hnot : ∀ e : Event, e.node = j → (e ∈ tr ++ es ↔ e ∈ tr) := by
        intro e he
        rw [List.mem_append, or_iff_left]
        intro hmem
        exact hji (he.symm.trans (hmove.events.2 e hmem).1)
      exact hview.of_trace (hnot _ rfl) (hnot _ rfl)

theorem reach_allFollow (hreach : Transition.Reach (buildSystem tbl cfg) (o.Answers tbl) s tr) :
    o.AllFollow tbl (s.spec tbl) tr := by
  obtain ⟨a, hrep, -, hfollow⟩ := reach_invariant (P := o.AllFollow tbl)
    (by
      intro i _
      simp [Oracle.Follows, Spec.State.life, State.spec, State.init, NodeState.fresh, Oracle.Unlaunched])
    (fun s a tr act a' es hrep hinv hfollow hallowed hstep => hstep.allFollow hinv hrep hallowed hfollow) hreach
  rw [hrep.spec]
  exact hfollow

section TwoRuns

variable {cfg₁ cfg₂ : Config} {s₁ s₂ : State} {tr₁ tr₂ : List Event} {r₁ r₂ : BuildResult}

def Agree (s₁ s₂ : State) (tr₁ tr₂ : List Event) (i : Nat) : Prop :=
  (s₁.nodes i).buildResult = (s₂.nodes i).buildResult ∧ (s₁.nodes i).inputSignature = (s₂.nodes i).inputSignature ∧
    (.launchPre i ∈ tr₁ ↔ .launchPre i ∈ tr₂) ∧ (.launch i ∈ tr₁ ↔ .launch i ∈ tr₂)

theorem agree_of_completed (hacyclic : tbl.Acyclic)
    (hreach₁ : Transition.Reach (buildSystem tbl cfg₁) (o.Answers tbl) s₁ tr₁)
    (hreach₂ : Transition.Reach (buildSystem tbl cfg₂) (o.Answers tbl) s₂ tr₂) :
    ∀ i < tbl.maxNodes, (s₁.spec tbl).Completed i → (s₂.spec tbl).Completed i → Agree s₁ s₂ tr₁ tr₂ i := by
  have hfollow₁ := reach_allFollow hreach₁
  have hfollow₂ := reach_allFollow hreach₂
  have hinv₁ := (reach_inv hreach₁).2
  have hinv₂ := (reach_inv hreach₂).2
  refine hacyclic.induction (P := fun i => (s₁.spec tbl).Completed i → (s₂.spec tbl).Completed i →
    Agree s₁ s₂ tr₁ tr₂ i) ?_
  intro i hi ih hdone₁ hdone₂
  have hp₁ : (s₁.nodes i).progress = .completed := hdone₁
  have hp₂ : (s₂.nodes i).progress = .completed := hdone₂
  have hready₁ : (s₁.spec tbl).Ready tbl i :=
    hinv₁.sched.ready i hi (by simp [State.spec, hp₁]) (by simp [State.spec, hp₁])
  have hready₂ : (s₂.spec tbl).Ready tbl i :=
    hinv₂.sched.ready i hi (by simp [State.spec, hp₂]) (by simp [State.spec, hp₂])
  have hview : tbl.view s₁.nodes i = tbl.view s₂.nodes i := by
    apply List.map_congr_left
    intro d hd
    obtain ⟨hresult, hsignature, -⟩ := ih d hd (hready₁ d hd) (hready₂ d hd)
    rw [hresult, hsignature]
  have h₁ := hfollow₁ i hi
  have h₂ := hfollow₂ i hi
  simp only [Oracle.Follows, Spec.State.life, State.spec, hp₁] at h₁
  simp only [Oracle.Follows, Spec.State.life, State.spec, hp₂, ← hview] at h₂
  exact ⟨h₁.2.1.trans h₂.2.1.symm, h₁.1.trans h₂.1.symm, h₁.2.2.1.trans h₂.2.2.1.symm, h₁.2.2.2.trans h₂.2.2.2.symm⟩

theorem agree_of_untouched (hreach₁ : Transition.Reach (buildSystem tbl cfg₁) (o.Answers tbl) s₁ tr₁)
    (hreach₂ : Transition.Reach (buildSystem tbl cfg₂) (o.Answers tbl) s₂ tr₂) (hi : i < tbl.maxNodes)
    (huntouched₁ : (s₁.spec tbl).Untouched i) (huntouched₂ : (s₂.spec tbl).Untouched i) : Agree s₁ s₂ tr₁ tr₂ i := by
  have hp₁ : (s₁.nodes i).progress = .initial := huntouched₁.2.2
  have hp₂ : (s₂.nodes i).progress = .initial := huntouched₂.2.2
  have h₁ := reach_allFollow hreach₁ i hi
  have h₂ := reach_allFollow hreach₂ i hi
  simp only [Oracle.Follows, Spec.State.life, State.spec, hp₁] at h₁
  simp only [Oracle.Follows, Spec.State.life, State.spec, hp₂] at h₂
  have hresult₁ := (reach_inv hreach₁).2.sched.open_result i hi (by simp [Spec.State.Completed, State.spec, hp₁])
  have hresult₂ := (reach_inv hreach₂).2.sched.open_result i hi (by simp [Spec.State.Completed, State.spec, hp₂])
  exact ⟨hresult₁.trans hresult₂.symm, h₁.1.trans h₂.1.symm, iff_of_false h₁.2.1 h₂.2.1, iff_of_false h₁.2.2 h₂.2.2⟩

/-- The pass one run stops at is not below the one the other stops at. -/
theorem passes_le {p₁ p₂ : Nat} (hagree : ∀ i < tbl.maxNodes, (s₁.spec tbl).Completed i → (s₂.spec tbl).Completed i →
      (s₁.nodes i).buildResult = (s₂.nodes i).buildResult)
    (hend₁ : Ended tbl (s₁.spec tbl) r₁ p₁) (hend₂ : Ended tbl (s₂.spec tbl) r₂ p₂) (i : Nat) (hi : i < tbl.maxNodes)
    (hlt : tbl.pass i < p₂) : tbl.pass i < p₁ := by
  by_cases hr : r₁ = .ok
  · exact (hend₁.ok hr).1 i hi
  · -- the first run failed in its last pass, so the second cannot have got past it
    obtain ⟨-, j, hj, hlast, hfailed⟩ := hend₁.error hr
    by_contra hge
    have hzero := hend₂.early j hj (by omega)
    have hsame := hagree j hj (hend₁.completed j hj (by omega)) (hend₂.completed j hj (by omega))
    exact hfailed (hsame.trans hzero)

/-- Two complete runs over an acyclic table with the same answers, no signal, and no failure or the flag to go
on after failures, whatever their schedules, numbers of threads and limits, end with the same result, leave
every node with the same progress, result and signature, and launch the same actions. -/
theorem schedule_independence (hacyclic : tbl.Acyclic)
    (hreach₁ : Transition.Reach (buildSystem tbl cfg₁) (o.Answers tbl) s₁ tr₁)
    (hreach₂ : Transition.Reach (buildSystem tbl cfg₂) (o.Answers tbl) s₂ tr₂)
    (hdone₁ : s₁.driver = .done r₁) (hdone₂ : s₂.driver = .done r₂)
    (hsignal₁ : s₁.signalReason = none) (hsignal₂ : s₂.signalReason = none)
    (hgo₁ : cfg₁.continueOnError = true ∨ ∀ i < tbl.maxNodes, (s₁.nodes i).buildResult = 0)
    (hgo₂ : cfg₂.continueOnError = true ∨ ∀ i < tbl.maxNodes, (s₂.nodes i).buildResult = 0) :
    r₁ = r₂ ∧ ∀ i < tbl.maxNodes, (s₁.nodes i).progress = (s₂.nodes i).progress ∧
      (s₁.nodes i).buildResult = (s₂.nodes i).buildResult ∧ (s₁.nodes i).inputSignature = (s₂.nodes i).inputSignature ∧
      (.launchPre i ∈ tr₁ ↔ .launchPre i ∈ tr₂) ∧ (.launch i ∈ tr₁ ↔ .launch i ∈ tr₂) := by
  have hagree := agree_of_completed hacyclic hreach₁ hreach₂
  obtain ⟨p₁, hend₁⟩ := ended_of_done hreach₁.any hdone₁ hsignal₁ hgo₁
  obtain ⟨p₂, hend₂⟩ := ended_of_done hreach₂.any hdone₂ hsignal₂ hgo₂
  have hle₁ := passes_le (fun i hi h₁ h₂ => (hagree i hi h₁ h₂).1) hend₁ hend₂
  have hle₂ := passes_le (fun i hi h₂ h₁ => (hagree i hi h₁ h₂).1.symm) hend₂ hend₁
  have hall : ∀ i < tbl.maxNodes, (s₁.nodes i).progress = (s₂.nodes i).progress ∧ Agree s₁ s₂ tr₁ tr₂ i := by
    intro i hi
    by_cases hlt : tbl.pass i < p₁
    · have hdone₁ := hend₁.completed i hi hlt
      have hdone₂ := hend₂.completed i hi (hle₂ i hi hlt)
      exact ⟨hdone₁.trans hdone₂.symm, hagree i hi hdone₁ hdone₂⟩
    · have huntouched₁ := hend₁.untouched i hi (by omega)
      have huntouched₂ := hend₂.untouched i hi (not_lt.mp fun hlt₂ => hlt (hle₁ i hi hlt₂))
      exact ⟨huntouched₁.2.2.trans huntouched₂.2.2.symm, agree_of_untouched hreach₁ hreach₂ hi huntouched₁ huntouched₂⟩
  refine ⟨?_, fun i hi => hall i hi⟩
  -- a failure in one run is a failure in the other
  by_cases hr₁ : r₁ = .ok
  · by_contra hne
    obtain ⟨-, i, hi, -, hfailed⟩ := hend₂.error fun hr₂ => hne (hr₁.trans hr₂.symm)
    exact hfailed ((hall i hi).2.1.symm.trans ((hend₁.ok hr₁).2 i hi))
  · obtain ⟨herror, i, hi, -, hfailed⟩ := hend₁.error hr₁
    have hr₂ : r₂ ≠ .ok := fun hr₂ => hfailed ((hall i hi).2.1.trans ((hend₂.ok hr₂).2 i hi))
    exact herror.trans (hend₂.error hr₂).1.symm

/-- Every signature is zero, no output is missing and every process exits with code 0. -/
def Oracle.quiet : Oracle where
  signature _ _ := ⟨0, 0⟩
  outputsMissing _ _ := false
  directoriesMade _ _ := true
  preResult _ _ := ⟨0, false⟩
  execResult _ _ := ⟨0, false⟩

/-- A step to which the environment gives the default answers: of a thread, or of the main thread outside of
`BuildLoop`. -/
def Action.plain : Option Nat → Action
  | some t => .thread t {}
  | none => .driver

theorem Oracle.quiet_plain (s : State) (who : Option Nat) : quiet.Answers tbl s (.plain who) := by
  cases who with
  | none => trivial
  | some t =>
      simp only [Action.plain, Oracle.Answers]
      split <;> simp [quiet]

theorem Oracle.quiet_reach {β : Type} {schedule : List (Option Nat)} {view : State × List Event → β} {b : β}
    (hexec : (Transition.exec (buildSystem tbl cfg) (schedule.map .plain) (.init cfg, [])).map view = some b) :
    ∃ s tr, Transition.Reach (buildSystem tbl cfg) (quiet.Answers tbl) s tr ∧ view (s, tr) = b := by
  apply Transition.exists_reach_of_exec _ hexec
  intro act hact s
  obtain ⟨who, -, rfl⟩ := List.mem_map.mp hact
  exact quiet_plain s who

/-- The pair built by the main thread alone, and built by a worker while the main thread looks on. -/
theorem schedule_independence_pair : ∃ s₁ tr₁ s₂ tr₂,
    Transition.Reach (buildSystem .pair .single) (Oracle.quiet.Answers .pair) s₁ tr₁ ∧
      Transition.Reach (buildSystem .pair .double) (Oracle.quiet.Answers .pair) s₂ tr₂ ∧ s₁.driver = .done .ok ∧
      s₂.driver = .done .ok ∧ ∀ i < NodeTable.pair.maxNodes, (s₁.nodes i).progress = (s₂.nodes i).progress ∧
        (s₁.nodes i).buildResult = (s₂.nodes i).buildResult ∧
        (s₁.nodes i).inputSignature = (s₂.nodes i).inputSignature ∧
        (.launchPre i ∈ tr₁ ↔ .launchPre i ∈ tr₂) ∧ (.launch i ∈ tr₁ ↔ .launch i ∈ tr₂) := by
  have hexec₁ : (Transition.exec (buildSystem .pair .single)
      (([none, none] ++ List.replicate 22 (some 0) ++ List.replicate 6 none).map .plain) (.init .single, [])).map
      (fun c => (c.1.driver, c.1.signalReason, (c.1.nodes 0).buildResult, (c.1.nodes 1).buildResult)) =
        some (.done .ok, none, 0, 0) := by
    decide +kernel
  have hexec₂ : (Transition.exec (buildSystem .pair .double)
      (([none, none] ++ List.replicate 22 (some 1) ++ [some 0, some 0] ++ List.replicate 5 none ++
        [some 1, some 1, none]).map
        .plain) (.init .double, [])).map
      (fun c => (c.1.driver, c.1.signalReason, (c.1.nodes 0).buildResult, (c.1.nodes 1).buildResult)) =
        some (.done .ok, none, 0, 0) := by
    decide +kernel
  obtain ⟨s₁, tr₁, hreach₁, hview₁⟩ := Oracle.quiet_reach hexec₁
  obtain ⟨s₂, tr₂, hreach₂, hview₂⟩ := Oracle.quiet_reach hexec₂
  simp only [Prod.mk.injEq] at hview₁ hview₂
  obtain ⟨hdone₁, hsignal₁, hfirst₁, hsecond₁⟩ := hview₁
  obtain ⟨hdone₂, hsignal₂, hfirst₂, hsecond₂⟩ := hview₂
  have hgo₁ : ∀ i < NodeTable.pair.maxNodes, (s₁.nodes i).buildResult = 0 := by
    intro i hi
    match i, hi with
    | 0, _ => exact hfirst₁
    | 1, _ => exact hsecond₁
  have hgo₂ : ∀ i < NodeTable.pair.maxNodes, (s₂.nodes i).buildResult = 0 := by
    intro i hi
    match i, hi with
    | 0, _ => exact hfirst₂
    | 1, _ => exact hsecond₂
  have hsame := schedule_independence pair_acyclic hreach₁ hreach₂ hdone₁ hdone₂ hsignal₁ hsignal₂ (.inr hgo₁)
    (.inr hgo₂)
  exact ⟨s₁, tr₁, s₂, tr₂, hreach₁, hreach₂, hdone₁, hdone₂, hsame.2⟩

end TwoRuns

end Tundra
