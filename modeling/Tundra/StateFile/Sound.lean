import Tundra.StateFile.Merge
import Tundra.Queue.Safety

/-!
# What a saved result is worth

A run of `DriverBuild`, however it ends, followed by `DriverSaveBuildState`. A record with result 0 should mean
that the node was built, in this run or in an earlier one, with the signature the record has.
`DriverSaveBuildState` takes every node that is not below `kUnblocked` for one that was built; when the threads
stop early, an expensive node that was parked is in `kRunAction`, with the new signature and the initial result
0.
-/

namespace Tundra

/-- What `DriverPrepareNodes` makes of the DAG and the previous state: each node of the table is one of the DAG,
with the record a search for its guid finds. -/
structure Prepared (dag : DagData) (prev : Option StateData) (tbl : NodeTable) : Prop where
  inside : ∀ i < tbl.maxNodes, tbl.mmapData i < dag.nodeData.length
  data : ∀ i < tbl.maxNodes, tbl.data i = dag.node (tbl.mmapData i)
  mmapState : ∀ i < tbl.maxNodes, tbl.mmapState i = findOld prev (dag.guid (tbl.mmapData i))

/-- The node states `DriverSaveBuildState` finds, in the order of the table. -/
def State.savedNodes (tbl : NodeTable) (s : State) : List (Nat × NodeState) :=
  (List.range tbl.maxNodes).map fun i => (tbl.mmapData i, s.nodes i)

/-- A record with result 0 and this signature is deserved: the node was completed in this run with them, or the
previous state had them. -/
def Deserved (dag : DagData) (prev : Option StateData) (tbl : NodeTable) (s : State) (guid : HashDigest)
    (signature : HashDigest) : Prop :=
  (∃ i < tbl.maxNodes, dag.guid (tbl.mmapData i) = guid ∧ (s.nodes i).progress = .completed ∧
    (s.nodes i).buildResult = 0 ∧
    (s.nodes i).inputSignature = signature) ∨
  ∃ old, (guid, old) ∈ oldRecords prev ∧ old.buildResult = 0 ∧ old.inputSignature = signature

variable {dag : DagData} {prev : Option StateData} {tbl : NodeTable} {cfg : Config} {s : State} {tr : List Event}
  {r : BuildResult}
  {image : List UInt8} {loaded : LoadedState}

theorem Prepared.selected (hprepared : Prepared dag prev tbl) (s : State) : Selected dag (s.savedNodes tbl) := by
  constructor
  · rw [State.savedNodes, List.map_map]
    apply List.Nodup.map_on _ List.nodup_range
    intro i hi j hj heq
    have hremap := tbl.remap_mmapData i (List.mem_range.mp hi)
    rw [show tbl.mmapData i = tbl.mmapData j from heq, tbl.remap_mmapData j (List.mem_range.mp hj)] at hremap
    exact (Option.some.inj hremap).symm
  · intro elem helem
    obtain ⟨i, hi, rfl⟩ := List.mem_map.mp helem
    exact hprepared.inside i (List.mem_range.mp hi)

theorem Prepared.eq_of_guid (hdag : dag.nodeGuids.Pairwise (· < ·)) (hprepared : Prepared dag prev tbl) {i j : Nat}
    (hi : i < tbl.maxNodes) (hj : j < tbl.maxNodes) (hguid : dag.guid (tbl.mmapData j) = dag.guid (tbl.mmapData i)) :
    j = i := by
  have hindex : tbl.mmapData j = tbl.mmapData i := by
    rcases lt_trichotomy (tbl.mmapData j) (tbl.mmapData i) with hlt | heq | hgt
    · exact absurd hguid (guid_lt hdag hlt (hprepared.inside i hi)).ne
    · exact heq
    · exact absurd hguid (guid_lt hdag hgt (hprepared.inside j hj)).ne'
  have hremap := tbl.remap_mmapData j hj
  rw [hindex, tbl.remap_mmapData i hi, Option.some.injEq] at hremap
  exact hremap.symm

theorem mem_savedNodes {elem : Nat × NodeState} :
    elem ∈ s.savedNodes tbl ↔ ∃ i < tbl.maxNodes, elem = (tbl.mmapData i, s.nodes i) := by
  simp [State.savedNodes, eq_comm]

/-- When the threads are gone, a node has not been begun, waits for its dependencies, was parked, or is completed. -/
theorem progress_of_done (hreach : Reaches tbl cfg s tr) (hdone : s.driver = .done r) {i : Nat}
    (hi : i < tbl.maxNodes) :
    (s.nodes i).progress = .initial ∨ (s.nodes i).progress = .blocked ∨ (s.nodes i).progress = .runAction ∨
      (s.nodes i).progress = .completed := by
  obtain ⟨-, hinv⟩ := reach_inv hreach
  have hexited := hinv.driver
  rw [show (s.spec tbl).driver = .done r from hdone] at hexited
  have hfree : ∀ t, ¬ (s.spec tbl).Held t i := by
    intro t hheld
    rw [Spec.State.Held, hexited.1 t] at hheld
    cases hheld
  have hnode := hinv.node.node i hi
  have hnodes : (s.spec tbl).nodes i = s.nodes i := rfl
  rw [← hnodes]
  cases hq : ((s.spec tbl).nodes i).queued <;> cases ha : ((s.spec tbl).nodes i).active
  · rcases hnode.idle_progress hq ha with hp | hp <;> simp [hp]
  · rcases hnode.held_or_done hq ha with hcompleted | ⟨t, ht⟩
    · exact .inr (.inr (.inr hcompleted))
    · exact absurd ht (hfree t)
  · rcases hnode.ring_progress hq ha with hp | hp | hp <;> simp [hp]
  · simp [hnode.parked_progress hq ha]

/-- The records of result 0 that are not deserved are those of nodes left behind in `kRunAction`. -/
theorem saved_result_sound (hdag : dag.nodeGuids.Pairwise (· < ·)) (hprev : Ascending prev)
    (hprepared : Prepared dag prev tbl) (hreach : Reaches tbl cfg s tr) (hdone : s.driver = .done r)
    (hsave : saveBuildState dag prev (s.savedNodes tbl) = some image) (hload : loadStateData image = some loaded) :
    (∀ guid data, (guid, data) ∈ loaded.nodeGuids.zip loaded.nodeStates → data.buildResult = 0 →
      Deserved dag prev tbl s guid data.inputSignature) ↔
    ∀ i < tbl.maxNodes, (s.nodes i).progress = .runAction →
      ∃ old, tbl.mmapState i = some old ∧ old.buildResult = 0 ∧ old.inputSignature = (s.nodes i).inputSignature := by
  have hselected := hprepared.selected s
  have hwritten : ∀ guid data, (guid, data) ∈ loaded.nodeGuids.zip loaded.nodeStates ↔
      Written dag prev (s.savedNodes tbl) guid data := by
    intro guid data
    rw [(load_saveBuildState hsave).2] at hload
    cases hload
    rw [List.zip_map', ← mem_savedRecords hdag hprev hselected]
    simp
  constructor
  · intro hsound i hi hprogress
    -- the record of a node in `kRunAction` has the initial result, and no other node has its guid
    have hresult : (s.nodes i).buildResult = 0 :=
      (reach_inv hreach).2.sched.open_result i hi (by simp [Spec.State.Completed, State.spec, hprogress])
    have hrecord : Written dag prev (s.savedNodes tbl) (dag.guid (tbl.mmapData i))
        ((dag.node (tbl.mmapData i)).record (s.nodes i).buildResult (s.nodes i).inputSignature) :=
      .inl ⟨_, mem_savedNodes.mpr ⟨i, hi, rfl⟩, rfl, by simp [hprogress, BuildProgress.toNat], rfl⟩
    rcases hsound _ _ ((hwritten _ _).mpr hrecord) hresult with ⟨j, hj, hguid, hcompleted, -⟩ |
      ⟨old, hold, hzero, hsignature⟩
    · rw [hprepared.eq_of_guid hdag hi hj hguid, hprogress] at hcompleted
      cases hcompleted
    · refine ⟨old, ?_, hzero, hsignature⟩
      rw [hprepared.mmapState i hi]
      exact (findOld_eq_some hprev).mpr hold
  · intro hclean guid data hmem hzero
    rcases (hwritten guid data).mp hmem with ⟨elem, helem, rfl, hprogress, rfl⟩ | ⟨elem, helem, rfl, hprogress, hold⟩ |
      ⟨old, i, hold, -, -, rfl, rfl⟩
    · obtain ⟨i, hi, rfl⟩ := mem_savedNodes.mp helem
      rcases progress_of_done hreach hdone hi with hp | hp | hp | hp
      · simp [hp, BuildProgress.toNat] at hprogress
      · simp [hp, BuildProgress.toNat] at hprogress
      · obtain ⟨old, hold, holdResult, hsignature⟩ := hclean i hi hp
        rw [hprepared.mmapState i hi, findOld_eq_some hprev] at hold
        exact .inr ⟨old, hold, holdResult, hsignature⟩
      · exact .inl ⟨i, hi, rfl, hp, hzero, rfl⟩
    · exact .inr ⟨data, hold, hzero, rfl⟩
    · exact .inr ⟨old, hold, hzero, rfl⟩

def costlyNodes : List NodeData :=
  [{ NodeData.empty with action := .run, expensive := true }, { NodeData.empty with action := .run, expensive := true }]

def costlyGuids : List HashDigest := [⟨1, 0⟩, ⟨1, 5⟩]

theorem length_costlyGuids : costlyGuids.length = costlyNodes.length := rfl

theorem length_costlyNodes : costlyNodes.length < 2 ^ 31 := by decide

def DagData.costly : DagData := ⟨costlyGuids, costlyNodes, length_costlyGuids, length_costlyNodes⟩

def NodeTable.costly : NodeTable := .whole costlyNodes 1 (fun _ => none) (by decide)

theorem prepared_costly : Prepared .costly none .costly := ⟨by decide, by decide, fun _ _ => rfl⟩

theorem savedNodes_costly (s : State) : s.savedNodes .costly = [(0, s.nodes 0), (1, s.nodes 1)] := rfl

/-- While one of the two nodes runs, the other one is parked. -/
def costlyStart :
    List Action := [.driver, .driver] ++ List.replicate 7 (.thread 0 {}) ++ List.replicate 7 (.thread 1 {})

/-- Both nodes are built. -/
theorem saved_result_sound_costly : ∃ s tr image loaded, Reaches .costly .double s tr ∧ s.driver = .done .ok ∧
    saveBuildState .costly none (s.savedNodes .costly) = some image ∧ loadStateData image = some loaded ∧
      ∀ guid data, (guid, data) ∈ loaded.nodeGuids.zip loaded.nodeStates → data.buildResult = 0 →
        Deserved .costly none .costly s guid data.inputSignature := by
  have hexec : (Transition.exec (buildSystem .costly .double)
      (costlyStart ++ List.replicate 12 (.thread 0 {}) ++ List.replicate 5 .driver ++
        List.replicate 2 (.thread 1 {}) ++ [.driver])
      (.init .double, [])).map (fun c => (c.1.driver, c.1.nodes 0, c.1.nodes 1)) =
      some (.done .ok, ⟨false, true, .completed, 0, ⟨0, 0⟩⟩, ⟨false, true, .completed, 0, ⟨0, 0⟩⟩) := by
    decide +kernel
  obtain ⟨s, tr, hreach, hview⟩ := Transition.exists_reach_of_exec (fun _ _ _ => trivial) hexec
  simp only [Prod.mk.injEq] at hview
  obtain ⟨hdone, hfirst, hsecond⟩ := hview
  obtain ⟨image, hsave⟩ : ∃ image, saveBuildState .costly none (s.savedNodes .costly) = some image := by
    rw [savedNodes_costly, hfirst, hsecond]
    exact Option.isSome_iff_exists.mp (by decide +kernel)
  have hload := (load_saveBuildState hsave).2
  refine ⟨s, tr, image, _, hreach, hdone, hsave, hload,
    (saved_result_sound (by decide) ascending_none prepared_costly hreach hdone hsave hload).mpr ?_⟩
  intro i hi hprogress
  match i, hi with
  | 0, _ => simp [hfirst] at hprogress
  | 1, _ => simp [hsecond] at hprogress

/-- The first node fails, the second one, parked and back in the ring, is never launched, and its record says
that it was built. -/
theorem saved_result_stranded :
    ∃ s tr image loaded, Reaches .costly .double s tr ∧ s.driver = .done .buildError ∧ .launch 1 ∉ tr ∧
    saveBuildState .costly none (s.savedNodes .costly) = some image ∧ loadStateData image = some loaded ∧
      ∃ data, (DagData.costly.guid 1, data) ∈ loaded.nodeGuids.zip loaded.nodeStates ∧ data.buildResult = 0 ∧
        ¬ Deserved .costly none .costly s (DagData.costly.guid 1) data.inputSignature := by
  have hexec : (Transition.exec (buildSystem .costly .double)
      (costlyStart ++ [.thread 0 { execResult := ⟨1, false⟩ }] ++ List.replicate 4 (.thread 0 {}) ++
        List.replicate 5 .driver ++
        List.replicate 2 (.thread 1 {}) ++ [.driver])
      (.init .double, [])).map (fun c => (c.1.driver, c.1.nodes 0, c.1.nodes 1, decide (.launch 1 ∉ c.2))) =
      some (.done .buildError, ⟨false, true, .completed, 1, ⟨0, 0⟩⟩, ⟨true, false, .runAction, 0, ⟨0, 0⟩⟩, true) := by
    decide +kernel
  obtain ⟨s, tr, hreach, hview⟩ := Transition.exists_reach_of_exec (fun _ _ _ => trivial) hexec
  simp only [Prod.mk.injEq, decide_eq_true_eq] at hview
  obtain ⟨hdone, hfirst, hsecond, hlaunch⟩ := hview
  obtain ⟨image, hsave⟩ : ∃ image, saveBuildState .costly none (s.savedNodes .costly) = some image := by
    rw [savedNodes_costly, hfirst, hsecond]
    exact Option.isSome_iff_exists.mp (by decide +kernel)
  have hload := (load_saveBuildState hsave).2
  refine ⟨s, tr, image, _, hreach, hdone, hlaunch, hsave, hload, (DagData.costly.node 1).record 0 ⟨0, 0⟩, ?_, rfl, ?_⟩
  · rw [List.zip_map', savedNodes_costly, hfirst, hsecond]
    decide +kernel
  · rintro (⟨i, hi, hguid, hcompleted, -⟩ | ⟨old, hold, -⟩)
    · match i, hi with
      | 0, _ => exact absurd hguid (by decide)
      | 1, _ => simp [hsecond] at hcompleted
    · cases hold

end Tundra
