import Tundra.StateFile.Load

/-!
# What is in the state file

The file `DriverSaveBuildState` writes, as a list of records: the nodes of the build and the previous records,
merged by guid, each with the record that is written for it. The two key spaces meet in the guids: the selected
nodes are sorted by their index in the DAG, and the guids of the DAG ascend with the index.
-/

namespace Tundra

/-- The files of a node as a record keeps them. -/
def NodeData.record (node : NodeData) (buildResult : Int32) (inputSignature : HashDigest) : NodeStateData :=
  ⟨buildResult, inputSignature, node.outputFiles.map FileAndHash.filename, node.auxOutputFiles.map FileAndHash.filename⟩

section Records

variable (dag : DagData) (prev : Option StateData)

/-- The record `save_new` writes. -/
def recordNew (elem : Nat × NodeState) : Option (HashDigest × NodeStateData) :=
  if elem.2.progress.toNat < BuildProgress.unblocked.toNat then
    (findOld prev (dag.guid elem.1)).map (dag.guid elem.1, ·)
  else some (dag.guid elem.1, (dag.node elem.1).record elem.2.buildResult elem.2.inputSignature)

/-- The record `save_old` writes. -/
def recordOld (old : HashDigest × NodeStateData) : Option (HashDigest × NodeStateData) :=
  (binarySearch compareHashDigests dag.nodeGuids old.1).map fun srcIndex =>
    (old.1, (dag.node srcIndex).record old.2.buildResult old.2.inputSignature)

/-- The record of an element of either array. -/
def recordOf : (Nat × NodeState) ⊕ (HashDigest × NodeStateData) → Option (HashDigest × NodeStateData) :=
  Sum.elim (recordNew dag prev) (recordOld dag)

def savedRecords (nodes : List (Nat × NodeState)) : List (HashDigest × NodeStateData) :=
  (visited compareHashDigests (fun elem : Nat × NodeState => dag.guid elem.1) Prod.fst (sortNodes nodes)
    (oldRecords prev)).filterMap
    (recordOf dag prev)

theorem saveNew_eq (w : StateWriter) (elem : Nat × NodeState) :
    saveNew dag prev w elem = (recordNew dag prev elem).elim w w.save := by
  simp only [saveNew, recordNew]
  split_ifs
  · cases findOld prev (dag.guid elem.1) <;> rfl
  · rfl

theorem saveOld_eq (w : StateWriter) (old : HashDigest × NodeStateData) :
    saveOld dag w old = (recordOld dag old).elim w w.save := by
  unfold saveOld recordOld
  cases binarySearch compareHashDigests dag.nodeGuids old.1 <;> rfl

theorem saveBuildState_eq (nodes : List (Nat × NodeState)) :
    saveBuildState dag prev nodes = BinaryWriter.flush
    (completeMain ((savedRecords dag prev nodes).foldl .save .empty)).segments := by
  rw [saveBuildState, traverseSortedArrays_eq_foldl, savedRecords, List.foldl_filterMap]
  congr 4
  funext w v
  cases v with
  | inl elem =>
      rw [Sum.elim_inl, saveNew_eq, recordOf, Sum.elim_inl]
      cases recordNew dag prev elem <;> rfl
  | inr old =>
      rw [Sum.elim_inr, saveOld_eq, recordOf, Sum.elim_inr]
      cases recordOld dag old <;> rfl

end Records

/-- The guids of a state file ascend, which is what the searches in it rely on. -/
def Ascending (prev : Option StateData) : Prop := ((oldRecords prev).map Prod.fst).Pairwise (· < ·)

theorem ascending_none : Ascending none := .nil

variable {dag : DagData} {prev : Option StateData} {nodes : List (Nat × NodeState)} {image : List UInt8}
  {guid : HashDigest}
  {data : NodeStateData}

theorem map_fst_oldRecords (state : StateData) : (oldRecords (some state)).map Prod.fst = state.nodeGuids :=
  List.map_fst_zip state.nodeGuids_length.le

theorem findOld_eq_some (hprev : Ascending prev) : findOld prev guid = some data ↔ (guid, data) ∈ oldRecords prev := by
  cases prev with
  | none => simp [findOld, oldRecords]
  | some state =>
      rw [Ascending, map_fst_oldRecords] at hprev
      simp only [findOld, oldRecords, Option.bind_eq_some_iff, binarySearch_eq_some compares_hashDigests hprev,
        List.mem_iff_getElem?,
        List.getElem?_zip_eq_some]

theorem find_dag (hdag : dag.nodeGuids.Pairwise (· < ·)) {i : Nat} :
    binarySearch compareHashDigests dag.nodeGuids guid = some i ↔ i < dag.nodeData.length ∧ dag.guid i = guid := by
  rw [binarySearch_eq_some compares_hashDigests hdag, ← dag.nodeGuids_length, List.getElem?_eq_some_iff]
  constructor
  · rintro ⟨hi, rfl⟩
    exact ⟨hi, by simp [DagData.guid, hi]⟩
  · rintro ⟨hi, rfl⟩
    exact ⟨hi, by simp [DagData.guid, hi]⟩

theorem guid_lt (hdag : dag.nodeGuids.Pairwise (· < ·)) {i j : Nat} (hij : i < j) (hj : j < dag.nodeData.length) :
    dag.guid i < dag.guid j := by
  rw [← dag.nodeGuids_length] at hj
  have hi : i < dag.nodeGuids.length := lt_trans hij hj
  simpa [DagData.guid, hi, hj] using List.pairwise_iff_getElem.mp hdag i j hi hj hij

/-- The selected nodes of a DAG: each once, given by its index. -/
structure Selected (dag : DagData) (nodes : List (Nat × NodeState)) : Prop where
  nodup : (nodes.map Prod.fst).Nodup
  inside : ∀ elem ∈ nodes, elem.1 < dag.nodeData.length

theorem sortNodes_pairwise (hdag : dag.nodeGuids.Pairwise (· < ·)) (hnodes : Selected dag nodes) :
    (sortNodes nodes).Pairwise fun l r => dag.guid l.1 < dag.guid r.1 := by
  have htotal : Std.Total fun l r : Nat × NodeState => l.1 ≤ r.1 := ⟨fun l r => le_total l.1 r.1⟩
  have htrans : IsTrans (Nat × NodeState) fun l r => l.1 ≤ r.1 := ⟨fun _ _ _ hlm hmr => hlm.trans hmr⟩
  have hsorted : (sortNodes nodes).Pairwise fun l r => l.1 ≤ r.1 := List.pairwise_insertionSort _ nodes
  have hperm : List.Perm (sortNodes nodes) nodes := List.perm_insertionSort _ nodes
  have hnodup : (sortNodes nodes).Pairwise fun l r => l.1 ≠ r.1 :=
    List.pairwise_map.mp ((hperm.map Prod.fst).nodup_iff.mpr hnodes.nodup)
  have hinside : ∀ elem ∈ sortNodes nodes, elem.1 < dag.nodeData.length :=
    fun elem helem => hnodes.inside elem (hperm.mem_iff.mp helem)
  refine (hsorted.and hnodup).imp_of_mem fun {l r} _ hr hlr => ?_
  exact guid_lt hdag (lt_of_le_of_ne hlr.1 hlr.2) (hinside r hr)

theorem recordOf_fst {v : (Nat × NodeState) ⊕ (HashDigest × NodeStateData)} {r : HashDigest × NodeStateData}
    (h : recordOf dag prev v = some r) : r.1 = visitKey (fun elem : Nat × NodeState => dag.guid elem.1) Prod.fst v := by
  cases v with
  | inl elem =>
      simp only [recordOf, Sum.elim_inl, recordNew] at h
      split_ifs at h
      · obtain ⟨_, -, rfl⟩ := Option.map_eq_some_iff.mp h
        rfl
      · cases h
        rfl
  | inr old =>
      obtain ⟨_, -, rfl⟩ := Option.map_eq_some_iff.mp h
      rfl

theorem savedRecords_pairwise (hdag : dag.nodeGuids.Pairwise (· < ·)) (hprev : Ascending prev)
    (hnodes : Selected dag nodes) :
    (savedRecords dag prev nodes).Pairwise fun r r' => r.1 < r'.1 := by
  rw [savedRecords, List.pairwise_filterMap]
  refine (visited_pairwise compares_hashDigests (sortNodes_pairwise hdag hnodes) (List.pairwise_map.mp hprev)).imp ?_
  intro v v' hlt r hr r' hr'
  rwa [recordOf_fst hr, recordOf_fst hr']

/-- The record that is written for a guid. -/
def Written (dag : DagData) (prev : Option StateData) (nodes : List (Nat × NodeState)) (guid : HashDigest)
    (data : NodeStateData) : Prop :=
  (∃ elem ∈ nodes, dag.guid elem.1 = guid ∧ BuildProgress.unblocked.toNat ≤ elem.2.progress.toNat ∧
    data = (dag.node elem.1).record elem.2.buildResult elem.2.inputSignature) ∨
  (∃ elem ∈ nodes, dag.guid elem.1 = guid ∧ elem.2.progress.toNat < BuildProgress.unblocked.toNat ∧
    (guid, data) ∈ oldRecords prev) ∨
  (∃ old i, (guid, old) ∈ oldRecords prev ∧ (∀ elem ∈ nodes, dag.guid elem.1 ≠ guid) ∧ i < dag.nodeData.length ∧
    dag.guid i = guid ∧
    data = (dag.node i).record old.buildResult old.inputSignature)

theorem mem_savedRecords (hdag : dag.nodeGuids.Pairwise (· < ·)) (hprev : Ascending prev)
    (hnodes : Selected dag nodes) :
    (guid, data) ∈ savedRecords dag prev nodes ↔ Written dag prev nodes guid data := by
  have hmem : ∀ elem, elem ∈ sortNodes nodes ↔ elem ∈ nodes := fun elem => List.mem_insertionSort _
  have hsorted := sortNodes_pairwise hdag hnodes
  rw [savedRecords, List.mem_filterMap]
  constructor
  · rintro ⟨elem | ⟨key, old⟩, hv, hrecord⟩
    · have helem := (hmem elem).mp ((inl_mem_visited elem).mp hv)
      simp only [recordOf, Sum.elim_inl, recordNew] at hrecord
      split_ifs at hrecord with hprogress
      · obtain ⟨old, hold, heq⟩ := Option.map_eq_some_iff.mp hrecord
        cases heq
        exact .inr (.inl ⟨elem, helem, rfl, hprogress, (findOld_eq_some hprev).mp hold⟩)
      · cases hrecord
        exact .inl ⟨elem, helem, rfl, not_lt.mp hprogress, rfl⟩
    · obtain ⟨hold, hnew⟩ := (inr_mem_visited compares_hashDigests hsorted (List.pairwise_map.mp hprev) _).mp hv
      obtain ⟨i, hfind, heq⟩ := Option.map_eq_some_iff.mp hrecord
      cases heq
      obtain ⟨hi, hguid⟩ := (find_dag hdag).mp hfind
      exact .inr (.inr ⟨old, i, hold, fun elem helem => hnew elem ((hmem elem).mpr helem), hi, hguid, rfl⟩)
  · rintro (⟨elem, helem, rfl, hprogress, rfl⟩ | ⟨elem, helem, rfl, hprogress, hold⟩ |
      ⟨old, i, hold, hnew, hi, rfl, rfl⟩)
    · refine ⟨.inl elem, (inl_mem_visited elem).mpr ((hmem elem).mpr helem), ?_⟩
      simp [recordOf, recordNew, not_lt.mpr hprogress]
    · refine ⟨.inl elem, (inl_mem_visited elem).mpr ((hmem elem).mpr helem), ?_⟩
      simp [recordOf, recordNew, hprogress, (findOld_eq_some hprev).mpr hold]
    · refine ⟨.inr (dag.guid i, old), (inr_mem_visited compares_hashDigests hsorted (List.pairwise_map.mp hprev) _).mpr
        ⟨hold, fun elem helem => hnew elem ((hmem elem).mp helem)⟩, ?_⟩
      simp [recordOf, recordOld, (find_dag hdag).mpr ⟨hi, rfl⟩]

theorem load_saveBuildState (hsave : saveBuildState dag prev nodes = some image) :
    (savedRecords dag prev nodes).length < 2 ^ 31 ∧
      loadStateData image = some
      ⟨.ofNat (savedRecords dag prev nodes).length, (savedRecords dag prev nodes).map Prod.fst,
        (savedRecords dag prev nodes).map Prod.snd⟩ := by
  rw [saveBuildState_eq] at hsave
  exact load_flush hsave

/-- The state file: the guids ascend, there are as many as `m_NodeCount` says and as there are node states, and
the record at a guid's index is the one written for it. A guid is in the file exactly when it belongs to a
selected node that got past its dependencies, to a selected node that did not and had a record before, or to a
previous record of a node that is still in the DAG and not selected. -/
theorem state_file_merge (hdag : dag.nodeGuids.Pairwise (· < ·))
    (hprev : ∀ state, prev = some state → state.nodeGuids.Pairwise (· < ·)) (hnodes : Selected dag nodes)
    (hsave : saveBuildState dag prev nodes = some image) :
    ∃ loaded, loadStateData image = some loaded ∧ loaded.nodeGuids.Pairwise (· < ·) ∧
      loaded.nodeCount.toInt = loaded.nodeGuids.length ∧ loaded.nodeStates.length = loaded.nodeGuids.length ∧
      ∀ guid data, (guid, data) ∈ loaded.nodeGuids.zip loaded.nodeStates ↔ Written dag prev nodes guid data := by
  have hascending : Ascending prev := by
    cases prev with
    | none => exact ascending_none
    | some state =>
        rw [Ascending, map_fst_oldRecords]
        exact hprev state rfl
  obtain ⟨hlt, hload⟩ := load_saveBuildState hsave
  refine ⟨_, hload, ?_, ?_, ?_, fun guid data => ?_⟩
  · exact List.pairwise_map.mpr (savedRecords_pairwise hdag hascending hnodes)
  · simpa using Int32.toInt_ofNat_of_lt hlt
  · simp
  · rw [List.zip_map', ← mem_savedRecords hdag hascending hnodes]
    simp

/-- Two nodes, the second with an output file. -/
def DagData.sample : DagData where
  nodeGuids := [⟨1, 0⟩, ⟨1, 5⟩]
  nodeData := [{ NodeData.empty with action := .run }, { NodeData.empty with outputFiles := [⟨.run, 7⟩] }]
  nodeGuids_length := rfl
  nodeCount_int := by decide

/-- A previous state with records of the second node and of one that is gone. -/
def StateData.sample : StateData where
  nodeGuids := [⟨0, 9⟩, ⟨1, 5⟩]
  nodeStates := [⟨0, ⟨3, 3⟩, [], []⟩, ⟨1, ⟨4, 4⟩, [], []⟩]
  nodeGuids_length := rfl
  nodeCount_int := by decide

/-- The first node was built; the second one keeps its record and gets the output file the DAG has for it now. -/
theorem state_file_merge_sample : ∃ image loaded,
    saveBuildState .sample (some .sample) [(0, ⟨false, true, .completed, 0, ⟨8, 8⟩⟩)] = some image ∧
      loadStateData image = some loaded ∧ loaded.nodeGuids.Pairwise (· < ·) ∧
      (⟨1, 0⟩, ⟨0, ⟨8, 8⟩, [], []⟩) ∈ loaded.nodeGuids.zip loaded.nodeStates ∧
      (⟨1, 5⟩, ⟨1, ⟨4, 4⟩, [.run], []⟩) ∈ loaded.nodeGuids.zip loaded.nodeStates := by
  obtain ⟨image, hsave⟩ : ∃ image,
      saveBuildState .sample (some .sample) [(0, ⟨false, true, .completed, 0, ⟨8, 8⟩⟩)] = some image :=
    Option.isSome_iff_exists.mp (by decide +kernel)
  obtain ⟨loaded, hload, hascending, -, -, hwritten⟩ := state_file_merge (by decide) (by rintro _ ⟨⟩; decide)
    ⟨by decide, by decide⟩ hsave
  refine ⟨image, loaded, hsave, hload, hascending, (hwritten _ _).mpr (.inl ?_), (hwritten _ _).mpr (.inr (.inr ?_))⟩
  · exact ⟨_, List.mem_cons_self, rfl, by decide, rfl⟩
  · exact ⟨⟨1, ⟨4, 4⟩, [], []⟩, 1, by decide, by decide, by decide, rfl, rfl⟩

end Tundra
