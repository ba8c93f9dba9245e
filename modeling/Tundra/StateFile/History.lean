import Tundra.StateFile.Sound
import Tundra.Queue.Failure

/-!
# Builds after builds

A sequence of runs of the program: each one starts from the state file the last one left, with a DAG and a
selection of its own, builds, and saves its state. The output list `OutputFilesDiffer` compares with comes from
the record, and the record may have gone through several runs that did not build the node. `save_new` keeps the
list of the record it copies; `save_old` writes the list the DAG has now, so the list of a record that was
carried over is not always the one the node was built with.
-/

namespace Tundra

def NodeData.outputs (node : NodeData) : List CString := node.outputFiles.map FileAndHash.filename

/-- One run: the DAG, the node table `DriverPrepareNodes` made of it, and how `DriverBuild` ended. -/
structure Run where
  dag : DagData
  tbl : NodeTable
  cfg : Config
  final : State
  trace : List Event

def Holds (image : List UInt8) (state : StateData) : Prop :=
  ∃ loaded, loadStateData image = some loaded ∧ state.nodeGuids = loaded.nodeGuids ∧
    state.nodeStates = loaded.nodeStates

/-- A sequence of runs, the last one first, and the state it leaves behind. There is no state file before the
first run, and every run saves its state. Each run is allowed by the state it finds. -/
inductive History (allowed : Option StateData → Run → Prop) : List Run → Option StateData → Prop
  | start : History allowed [] none
  | run {runs : List Run} {prev : Option StateData} {run : Run} {result : BuildResult} {image : List UInt8}
      {state : StateData}
      (hpast : History allowed runs prev) (hallowed : allowed prev run) (hdag : run.dag.nodeGuids.Pairwise (· < ·))
      (hprepared : Prepared run.dag prev run.tbl) (hreach : Reaches run.tbl run.cfg run.final run.trace)
      (hdone : run.final.driver = .done result)
      (hsave : saveBuildState run.dag prev (run.final.savedNodes run.tbl) = some image) (hload : Holds image state) :
      History allowed (run :: runs) (some state)

/-- The run executed the action of the node with this guid, which had these output files. An empty action is
executed when the node is completed. -/
def Run.Executed (run : Run) (guid : HashDigest) (files : List CString) : Prop :=
  ∃ i < run.tbl.maxNodes, run.dag.guid (run.tbl.mmapData i) = guid ∧ (run.tbl.data i).outputs = files ∧
    (.launch i ∈ run.trace ∨ (run.tbl.data i).action.bytes = [] ∧ (run.final.nodes i).progress = .completed)

/-- The output files a node had in the run in which its action was last executed. -/
def LastExecuted : List Run → HashDigest → List CString → Prop
  | [], _, _ => False
  | run :: runs, guid, files =>
      run.Executed guid files ∨ (∀ other, ¬ run.Executed guid other) ∧ LastExecuted runs guid files

/-- The run writes no record of result 0 whose output list is not the one the node was built with: a record that
is carried over for a node that is not selected has the list the DAG has now, and so has the record of a node
that was left behind in `kRunAction`. -/
structure KeepsOutputs (prev : Option StateData) (run : Run) : Prop where
  carried : ∀ guid old, (guid, old) ∈ oldRecords prev → old.buildResult = 0 →
    (∀ i < run.tbl.maxNodes, run.dag.guid (run.tbl.mmapData i) ≠ guid) →
    ∀ k < run.dag.nodeData.length, run.dag.guid k = guid → (run.dag.node k).outputs = old.outputFiles
  stranded : ∀ i < run.tbl.maxNodes, (run.final.nodes i).progress = .runAction →
    ∃ old, run.tbl.mmapState i = some old ∧ old.buildResult = 0 ∧ (run.tbl.data i).outputs = old.outputFiles

/-- The records of result 0 have the output lists the nodes were built with. -/
structure OutputsSound (runs : List Run) (prev : Option StateData) : Prop where
  ascending : Ascending prev
  outputs : ∀ guid old, (guid, old) ∈ oldRecords prev → old.buildResult = 0 → ∀ files, LastExecuted runs guid files →
    old.outputFiles = files

variable {runs : List Run} {prev : Option StateData} {run : Run} {dag : DagData} {tbl : NodeTable} {guid : HashDigest}
  {files : List CString} {i : Nat}

theorem outputFilesDiffer_eq_false {node : NodeData} {old : NodeStateData} (h : outputFilesDiffer node old = false) :
    node.outputs = old.outputFiles := by
  unfold outputFilesDiffer at h
  split_ifs at h with hlength
  have hsame : ∀ pair ∈ node.outputFiles.zip old.outputFiles, pair.1.filename = pair.2 := by simpa using h
  refine List.ext_getElem (by simpa [NodeData.outputs] using hlength) fun k hk hk' => ?_
  rw [NodeData.outputs, List.length_map] at hk
  have hpair := hsame _ (List.getElem_mem (n := k) (by simp [hk, hk']))
  rw [List.getElem_zip] at hpair
  simpa [NodeData.outputs] using hpair

/-- A node that `CheckInputSignature` finds up to date has a record of result 0 with its output list. -/
theorem upToDate_record {signature : HashDigest} {outputsMissing : Bool}
    (h : checkInputSignature (tbl.data i) (tbl.mmapState i) signature outputsMissing = .upToDate) :
    ∃ old, tbl.mmapState i = some old ∧ old.buildResult = 0 ∧ (tbl.data i).outputs = old.outputFiles := by
  cases hold : tbl.mmapState i with
  | none => simp [hold, checkInputSignature] at h
  | some old =>
      simp only [hold, checkInputSignature] at h
      split_ifs at h with hsignature hresult hdiffer
      exact ⟨old, rfl, not_not.mp hresult, outputFilesDiffer_eq_false (Bool.eq_false_iff.mpr hdiffer)⟩

/-- A node whose action was launched has come past its dependencies. -/
theorem launched_progress {cfg : Config} {s : State} {tr : List Event} (hreach : Reaches tbl cfg s tr)
    (hlaunch : .launch i ∈ tr) :
    BuildProgress.unblocked.toNat ≤ (s.nodes i).progress.toNat := by
  have hcount := (reach_counted hreach (.launch i) (Nat.succ_pos _)).2
  by_contra hlt
  have hrank : ((s.spec tbl).life i).rank = 0 := by
    cases hp : (s.nodes i).progress <;> simp [hp, BuildProgress.toNat] at hlt <;>
      simp [Spec.Life.rank, Spec.State.life, State.spec, hp]
  have hzero := hcount (by rw [Event.node, hrank]; exact Nat.succ_pos _)
  exact absurd hlaunch (List.count_eq_zero.mp hzero)

theorem mem_oldRecords_of_holds {nodes : List (Nat × NodeState)} {image : List UInt8} {state : StateData}
    (hdag : dag.nodeGuids.Pairwise (· < ·)) (hprev : Ascending prev) (hnodes : Selected dag nodes)
    (hsave : saveBuildState dag prev nodes = some image) (hload : Holds image state) :
    Ascending (some state) ∧ ∀ guid data, (guid, data) ∈ oldRecords
    (some state) ↔ Written dag prev nodes guid data := by
  obtain ⟨loaded, hload, hguids, hstates⟩ := hload
  rw [(load_saveBuildState hsave).2] at hload
  cases hload
  constructor
  · rw [Ascending, map_fst_oldRecords, hguids]
    exact List.pairwise_map.mpr (savedRecords_pairwise hdag hprev hnodes)
  · intro guid data
    rw [oldRecords, hguids, hstates, List.zip_map', ← mem_savedRecords hdag hprev hnodes]
    simp

theorem lastExecuted_cons (h : LastExecuted (run :: runs) guid files) :
    run.Executed guid files ∨ LastExecuted runs guid files :=
  h.imp_right And.right

/-- A run that keeps the output lists leaves records with the lists the nodes were built with. -/
theorem OutputsSound.next {result : BuildResult} {image : List UInt8} {state : StateData}
    (hsound : OutputsSound runs prev) (hkeeps : KeepsOutputs prev run) (hdag : run.dag.nodeGuids.Pairwise (· < ·))
    (hprepared : Prepared run.dag prev run.tbl) (hreach : Reaches run.tbl run.cfg run.final run.trace)
    (hdone : run.final.driver = .done result)
    (hsave : saveBuildState run.dag prev (run.final.savedNodes run.tbl) = some image) (hload : Holds image state) :
    OutputsSound (run :: runs) (some state) := by
  obtain ⟨hascending, hrecords⟩ :=
    mem_oldRecords_of_holds hdag hsound.ascending (hprepared.selected run.final) hsave hload
  refine ⟨hascending, fun guid data hmem hzero files hlast => ?_⟩
  -- the list of a selected node in this run is the one the run executed it with, if it did
  have hown : ∀ i < run.tbl.maxNodes, run.dag.guid (run.tbl.mmapData i) = guid → run.Executed guid files →
      (run.tbl.data i).outputs = files := by
    rintro i hi hguid ⟨j, hj, hguid', hfiles, -⟩
    rwa [← hprepared.eq_of_guid hdag hi hj (hguid'.trans hguid.symm)]
  -- the list of a previous record of result 0 is the one an earlier run executed the node with
  have hearlier : ∀ i < run.tbl.maxNodes, run.dag.guid (run.tbl.mmapData i) = guid →
    ∀ old, run.tbl.mmapState i = some old →
      old.buildResult = 0 → (run.tbl.data i).outputs = old.outputFiles → LastExecuted runs guid files →
        (run.tbl.data i).outputs = files := by
    intro i hi hguid old hold hresult hlist hlast
    rw [hprepared.mmapState i hi, hguid, findOld_eq_some hsound.ascending] at hold
    rw [hlist, hsound.outputs guid old hold hresult files hlast]
  rcases (hrecords guid data).mp hmem with ⟨elem, helem, hguid, hprogress, rfl⟩ |
    ⟨elem, helem, hguid, hprogress, hold⟩ |
    ⟨old, k, hold, hnew, hk, hguid, rfl⟩
  · obtain ⟨i, hi, rfl⟩ := mem_savedNodes.mp helem
    rw [NodeData.record, ← NodeData.outputs, ← hprepared.data i hi]
    rcases hlast with hnow | ⟨hnot, hlast⟩
    · exact hown i hi hguid hnow
    rcases progress_of_done hreach hdone hi with hp | hp | hp | hp
    · simp [hp, BuildProgress.toNat] at hprogress
    · simp [hp, BuildProgress.toNat] at hprogress
    · obtain ⟨old, hold, hresult, hlist⟩ := hkeeps.stranded i hi hp
      exact hearlier i hi hguid old hold hresult hlist hlast
    · have hran := reach_ran hreach i hi
      simp only [Spec.Ran, Spec.State.life, State.spec, hp] at hran
      rcases hran.2 with hlaunch | hempty | hfresh | hfailed
      · exact absurd ⟨i, hi, hguid, rfl, .inl hlaunch⟩ (hnot _)
      · exact absurd ⟨i, hi, hguid, rfl, .inr ⟨hempty, hp⟩⟩ (hnot _)
      · obtain ⟨old, hold, hresult, hlist⟩ := upToDate_record hfresh
        exact hearlier i hi hguid old hold hresult hlist hlast
      · exact absurd hzero hfailed
  · obtain ⟨i, hi, rfl⟩ := mem_savedNodes.mp helem
    rcases lastExecuted_cons hlast with ⟨j, hj, hguid', -, hexecuted⟩ | hlast
    · rw [hprepared.eq_of_guid hdag hi hj (hguid'.trans hguid.symm)] at hexecuted
      rcases hexecuted with hlaunch | ⟨-, hcompleted⟩
      · exact absurd (launched_progress hreach hlaunch) (not_le.mpr hprogress)
      · simp [hcompleted, BuildProgress.toNat] at hprogress
    · exact hsound.outputs guid data hold hzero files hlast
  · have hunselected : ∀ i < run.tbl.maxNodes, run.dag.guid (run.tbl.mmapData i) ≠ guid :=
      fun i hi => hnew _ (mem_savedNodes.mpr ⟨i, hi, rfl⟩)
    rcases lastExecuted_cons hlast with ⟨j, hj, hguid', -⟩ | hlast
    · exact absurd hguid' (hunselected j hj)
    · rw [NodeData.record, ← NodeData.outputs, hkeeps.carried guid old hold hzero hunselected k hk hguid]
      exact hsound.outputs guid old hold hzero files hlast

theorem History.weaken {allowed allowed' : Option StateData → Run → Prop}
    (himp : ∀ prev run, allowed prev run → allowed' prev run) (hpast : History allowed runs prev) :
    History allowed' runs prev := by
  induction hpast with
  | start => exact .start
  | run _ hallowed hdag hprepared hreach hdone hsave hload ih =>
      exact .run ih (himp _ _ hallowed) hdag hprepared hreach hdone hsave hload

theorem History.outputsSound (hpast : History KeepsOutputs runs prev) : OutputsSound runs prev := by
  induction hpast with
  | start => exact ⟨ascending_none, fun _ _ h => absurd h List.not_mem_nil⟩
  | run _ hkeeps hdag hprepared hreach hdone hsave hload ih =>
      exact ih.next hkeeps hdag hprepared hreach hdone hsave hload

/-- In a sequence of runs that all keep the output lists, a node that is found up to date has the output list it
had in the run in which its action was last executed. -/
theorem changed_outputs_rebuild (hpast : History KeepsOutputs runs prev) (hprepared : Prepared dag prev tbl)
    (hi : i < tbl.maxNodes) {signature : HashDigest} {outputsMissing : Bool}
    (hverdict : checkInputSignature (tbl.data i) (tbl.mmapState i) signature outputsMissing = .upToDate)
    (hlast : LastExecuted runs (dag.guid (tbl.mmapData i)) files) : (tbl.data i).outputs = files := by
  have hsound := hpast.outputsSound
  obtain ⟨old, hold, hresult, hlist⟩ := upToDate_record hverdict
  rw [hprepared.mmapState i hi, findOld_eq_some hsound.ascending] at hold
  rw [hlist, hsound.outputs _ old hold hresult files hlast]

theorem one_node_int : 1 + 1 < 2 ^ 31 := by decide

theorem one_node_total : ∑ q ∈ Finset.range 1, (fun _ : Nat => 1) q = 1 := by simp

theorem one_node_remap (k : Nat) : ∀ i < 1, (if k = k then some 0 else none) = some i := by
  intro i hi
  rw [if_pos rfl, Nat.lt_one_iff.mp hi]

theorem one_node_mmapData (k : Nat) : ∀ d i, (if d = k then some 0 else none) = some i → i < 1 ∧ k = d := by
  intro d i hremap
  simp only [Option.ite_none_right_eq_some, Option.some.injEq] at hremap
  omega

/-- A table that selects one node of a DAG, one without dependencies. -/
def NodeTable.only (nodes : List NodeData) (k : Nat) (state : Option NodeStateData)
    (h : (nodes[k]?.getD .empty).dependencies = [] ∧ (nodes[k]?.getD .empty).backLinks = [] ∧
    (nodes[k]?.getD .empty).passIndex = 0) :
    NodeTable where
  nodeData i := nodes[i]?.getD .empty
  maxNodes := 1
  mmapData _ := k
  mmapState _ := state
  nodeRemap d := if d = k then some 0 else none
  passCount := 1
  passNodeCount _ := 1
  maxNodes_int := one_node_int
  remap_mmapData := one_node_remap k
  mmapData_remap := one_node_mmapData k
  closed i _ d hd := by simp [h.1] at hd
  backLinks_transpose i _ j _ := by simp [h.1, h.2.1]
  passMonotone i _ d hd := by simp [h.1] at hd
  passIndex_lt i _ := by simp [h.2.2]
  passSorted i hi := by simp [h.2.2, Nat.lt_one_iff.mp hi]
  passTotal := one_node_total

def writerNodes (file : CString) : List NodeData :=
  [{ NodeData.empty with action := .run, outputFiles := [⟨file, 7⟩] }, { NodeData.empty with action := .run }]

theorem length_writerNodes (file : CString) : [(⟨1, 0⟩ : HashDigest), ⟨1, 5⟩].length = (writerNodes file).length := rfl

theorem writerNodes_int (file : CString) : (writerNodes file).length < 2 ^ 31 := by simp [writerNodes]

def DagData.writer (file : CString) :
    DagData := ⟨[⟨1, 0⟩, ⟨1, 5⟩], writerNodes file, length_writerNodes file, writerNodes_int file⟩

/-- The first node of the DAG selected alone. -/
def NodeTable.writer (file : CString) (state : Option NodeStateData) :
    NodeTable := .only (writerNodes file) 0 state ⟨rfl, rfl, rfl⟩

/-- The second node of the DAG selected alone. -/
def NodeTable.beside (file : CString) : NodeTable := .only (writerNodes file) 1 none ⟨rfl, rfl, rfl⟩

/-- Another string of one letter. -/
def CString.out : CString := ⟨[111], by decide⟩

/-- The only node of a table is built by the main thread. -/
def onlySteps : List Action := [.driver, .driver] ++ List.replicate 12 (.thread 0 {}) ++ List.replicate 6 .driver

def NodeState.built : NodeState := ⟨false, true, .completed, 0, ⟨0, 0⟩⟩

theorem writer_reaches :
    ∃ s tr, Reaches (.writer .run none) .single s tr ∧ s.driver = .done .ok ∧ s.nodes 0 = .built ∧ .launch 0 ∈ tr := by
  have hexec : (Transition.exec (buildSystem (.writer .run none) .single) onlySteps (.init .single, [])).map
      (fun c => (c.1.driver, c.1.nodes 0, decide (.launch 0 ∈ c.2))) = some (.done .ok, .built, true) := by
    decide +kernel
  obtain ⟨s, tr, hreach, hview⟩ := Transition.exists_reach_of_exec (fun _ _ _ => trivial) hexec
  simp only [Prod.mk.injEq, decide_eq_true_eq] at hview
  exact ⟨s, tr, hreach, hview⟩

theorem beside_reaches : ∃ s tr, Reaches (.beside .out) .single s tr ∧ s.driver = .done .ok ∧ s.nodes 0 = .built := by
  have hexec : (Transition.exec (buildSystem (.beside .out) .single) onlySteps (.init .single, [])).map
      (fun c => (c.1.driver, c.1.nodes 0)) = some (.done .ok, .built) := by
    decide +kernel
  obtain ⟨s, tr, hreach, hview⟩ := Transition.exists_reach_of_exec (fun _ _ _ => trivial) hexec
  simp only [Prod.mk.injEq] at hview
  exact ⟨s, tr, hreach, hview⟩

/-- What the state file says of the first node when it was built. -/
def writerRecord (file : CString) : NodeStateData := ⟨0, ⟨0, 0⟩, [file], []⟩

/-- A state of this many records loads from the file that saves them. -/
theorem holds_of_savedRecords {nodes : List (Nat × NodeState)} {state : StateData} {image : List UInt8}
    (hsave : saveBuildState dag prev nodes = some image)
    (hguids : state.nodeGuids = (savedRecords dag prev nodes).map Prod.fst)
    (hstates : state.nodeStates = (savedRecords dag prev nodes).map Prod.snd) : Holds image state :=
  ⟨_, (load_saveBuildState hsave).2, hguids, hstates⟩

theorem one_int : [writerRecord .run].length < 2 ^ 31 := by decide

theorem one_state : [(⟨1, 0⟩ : HashDigest)].length = [writerRecord .run].length := rfl

/-- The state after the first node was built. -/
def StateData.afterWriter : StateData := ⟨[⟨1, 0⟩], [writerRecord .run], one_state, one_int⟩

theorem two_int : [writerRecord .out, ⟨0, ⟨0, 0⟩, [], []⟩].length < 2 ^ 31 := by decide

theorem two_states : [(⟨1, 0⟩ : HashDigest), ⟨1, 5⟩].length = [writerRecord .out, ⟨0, ⟨0, 0⟩, [], []⟩].length := rfl

/-- The state after the second node was built with another DAG, in which the first one writes another file. -/
def StateData.afterBeside :
    StateData := ⟨[⟨1, 0⟩, ⟨1, 5⟩], [writerRecord .out, ⟨0, ⟨0, 0⟩, [], []⟩], two_states, two_int⟩

theorem afterWriter_found : findOld (some .afterWriter) ⟨1, 0⟩ = some (writerRecord .run) := by
  decide +kernel

theorem afterWriter_missing : findOld (some .afterWriter) ⟨1, 5⟩ = none := by
  decide +kernel

theorem afterBeside_found : findOld (some .afterBeside) ⟨1, 0⟩ = some (writerRecord .out) := by
  decide +kernel

theorem writer_guids (file : CString) : (DagData.writer file).nodeGuids.Pairwise (· < ·) := by
  change [(⟨1, 0⟩ : HashDigest), ⟨1, 5⟩].Pairwise (· < ·)
  decide

theorem prepared_writer (file : CString) : Prepared (.writer file) none (.writer file none) :=
  ⟨fun _ _ => Nat.zero_lt_two, fun _ _ => rfl, fun _ _ => rfl⟩

/-- The first node is built, alone, by a run that keeps the output lists. -/
theorem writer_history : ∃ run, History KeepsOutputs [run] (some .afterWriter) ∧ run.Executed ⟨1, 0⟩ [.run] := by
  obtain ⟨s, tr, hreach, hdone, hnode, hlaunch⟩ := writer_reaches
  have hsaved : s.savedNodes (.writer .run none) = [(0, .built)] := by
    rw [← hnode]
    rfl
  obtain ⟨image, hsave⟩ : ∃ image, saveBuildState (.writer .run) none [(0, .built)] = some image :=
    Option.isSome_iff_exists.mp (by decide +kernel)
  refine ⟨⟨.writer .run, .writer .run none, .single, s, tr⟩, ?_, 0, Nat.one_pos, rfl, rfl, .inl hlaunch⟩
  refine .run .start ⟨?_, ?_⟩ (writer_guids .run) (prepared_writer .run) hreach hdone (by rwa [hsaved])
    (holds_of_savedRecords hsave (by decide +kernel) (by decide +kernel))
  · intro guid old hold
    exact absurd hold List.not_mem_nil
  · intro i hi hprogress
    rw [Nat.lt_one_iff.mp hi, hnode] at hprogress
    cases hprogress

theorem changed_outputs_rebuild_writer : ∃ runs prev, History KeepsOutputs runs prev ∧
    Prepared (.writer .run) prev (.writer .run (some (writerRecord .run))) ∧
    LastExecuted runs ⟨1, 0⟩ [.run] ∧ ((NodeTable.writer .run (some (writerRecord .run))).data 0).outputs = [.run] := by
  obtain ⟨run, hpast, hexecuted⟩ := writer_history
  have hprepared : Prepared (.writer .run) (some .afterWriter) (.writer .run (some (writerRecord .run))) :=
    ⟨fun _ _ => Nat.zero_lt_two, fun _ _ => rfl, fun _ _ => afterWriter_found.symm⟩
  have hverdict : checkInputSignature ((NodeTable.writer .run (some (writerRecord .run))).data 0)
      ((NodeTable.writer .run (some (writerRecord .run))).mmapState 0) ⟨0, 0⟩ false = .upToDate := by
    decide
  exact ⟨[run], _, hpast, hprepared, .inl hexecuted,
    changed_outputs_rebuild hpast hprepared Nat.one_pos hverdict (.inl hexecuted)⟩

/-- After the first node was built, a run with another DAG, in which the node writes another file, builds the
second node alone and carries the record of the first one over with the list the DAG has now. The node is then
found up to date, although it was last executed with the other list. -/
theorem changed_outputs_carried :
    ∃ runs prev tbl, History (fun _ _ => True) runs prev ∧ Prepared (.writer .out) prev tbl ∧
    checkInputSignature (tbl.data 0) (tbl.mmapState 0) ⟨0, 0⟩ false = .upToDate ∧ LastExecuted runs ⟨1, 0⟩ [.run] ∧
    (DagData.writer .out).guid (tbl.mmapData 0) = ⟨1, 0⟩ ∧ (tbl.data 0).outputs = [.out] := by
  obtain ⟨run, hpast, hexecuted⟩ := writer_history
  obtain ⟨s, tr, hreach, hdone, hnode⟩ := beside_reaches
  have hsaved : s.savedNodes (.beside .out) = [(1, .built)] := by
    rw [← hnode]
    rfl
  obtain ⟨image, hsave⟩ : ∃ image, saveBuildState (.writer .out) (some .afterWriter) [(1, .built)] = some image :=
    Option.isSome_iff_exists.mp (by decide +kernel)
  have hpast' : History (fun _ _ => True) [run] (some .afterWriter) := hpast.weaken fun _ _ _ => trivial
  refine ⟨[⟨.writer .out, .beside .out, .single, s, tr⟩, run], some .afterBeside,
    .writer .out (some (writerRecord .out)), ?_,
    ⟨fun _ _ => Nat.zero_lt_two, fun _ _ => rfl, fun _ _ => afterBeside_found.symm⟩, by decide, ?_, rfl, rfl⟩
  · refine .run hpast' trivial (writer_guids .out)
      ⟨fun _ _ => Nat.one_lt_two, fun _ _ => rfl, fun _ _ => afterWriter_missing.symm⟩ hreach hdone
      (by rwa [hsaved]) (holds_of_savedRecords hsave (by decide +kernel) (by decide +kernel))
  · refine .inr ⟨?_, .inl hexecuted⟩
    rintro files ⟨i, -, hguid, -⟩
    exact absurd (show (⟨1, 5⟩ : HashDigest) = ⟨1, 0⟩ from hguid) (by decide)

end Tundra
