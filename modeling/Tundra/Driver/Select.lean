import Tundra.TargetSelect
import Tundra.PathUtil
import Tundra.StateFile.Save
import Mathlib.Data.List.Destutter
import Mathlib.Data.List.ReduceOption

/-!
# Selecting nodes

`DriverSelectNodes`: the targets of the command line lead to build tuples, and the names that are left to nodes
of these tuples, by their own name or by the name of a file. Without names the default nodes are selected, and
the nodes that are always built in any case.
-/

namespace Tundra

structure NamedNodeData where
  name : CString
  nodeIndex : Nat
deriving DecidableEq

structure BuildTupleData where
  configIndex : Int32
  variantIndex : Int32
  subVariantIndex : Int32
  defaultNodes : List Nat
  alwaysNodes : List Nat
  namedNodes : List NamedNodeData
deriving DecidableEq

/-- The parts of `DagData` the selection of nodes reads, beside the nodes. -/
structure DriverDag extends DagData where
  passes : List CString
  configNameHashes : List UInt32
  variantNameHashes : List UInt32
  subVariantNameHashes : List UInt32
  buildTuples : List BuildTupleData
  defaultConfigIndex : Int32
  defaultVariantIndex : Int32
  defaultSubVariantIndex : Int32

/-- `m_NodeCount`. -/
def DagData.nodeCount (dag : DagData) : Nat := dag.nodeData.length

/-- `m_Dependencies` of a node. -/
def DagData.dependencies (dag : DagData) (index : Nat) : List Nat := (dag.node index).dependencies

def findBuildTuple (dag : DriverDag) (spec : TargetSpec) : Option BuildTupleData :=
  dag.buildTuples.find? fun tuple => tuple.configIndex.toInt = spec.configIndex ∧
    tuple.variantIndex.toInt = spec.variantIndex ∧
    tuple.subVariantIndex.toInt = spec.subVariantIndex

def findReachable (dag : DagData) (fuel : Nat) (nodeBits : BitSet dag.nodeCount) (index : Nat) :
    Option (BitSet dag.nodeCount) :=
  (BitSet.marks dag.nodeCount).reach dag.dependencies fuel nodeBits index

def findReachableNodes (dag : DagData) (tuple : BuildTupleData) : Option (BitSet dag.nodeCount) :=
  (tuple.namedNodes.map NamedNodeData.nodeIndex).foldlM (findReachable dag (dag.nodeCount + 1)) (.empty dag.nodeCount)

/-- The numbers of a bit set as the loop over its words meets them. -/
def bitSetIndices {n : Nat} (nodeBits : BitSet n) : List Nat :=
  nodeBits.words.zipIdx.flatMap fun word => (bitIndices word.1).map (32 * word.2 + ·)

/-- The comparison of a name with the files of a node. -/
def namesFile (filename : CString) (files : List FileAndHash) : Bool :=
  files.any fun file => djb2HashPath filename = file.filenameHash ∧ file.filename = filename

/-- The file a name stands for: a name below the current directory is cut off there, and any other stays as it
is written. The program ends if the name does not fit a path buffer. -/
def mapFilename (cwd name : CString) : Option CString := do
  let path ← pathInit name .unix
  let pathFmt ← pathFormat path
  let directory := cwd ++ CString.lit "/"
  if directory.bytes <+: pathFmt.bytes then return pathFmt.slice directory.bytes.length pathFmt.bytes.length
  else return name

/-- The body of the loop of `FindNodesByName`: the node of a name, if there is one. -/
def findNodeByName (cwd : CString) (dag : DagData) (tuple : BuildTupleData) (name : CString) : Option (Option Nat) :=
  match tuple.namedNodes.find? fun named => named.name = name with
  | some named => some (some named.nodeIndex)
  | none => do
      let filename ← mapFilename cwd name
      let nodeBits ← findReachableNodes dag tuple
      return (bitSetIndices nodeBits).find? fun index =>
        namesFile filename (dag.node index).inputFiles || namesFile filename (dag.node index).outputFiles

def findNodesByName (cwd : CString) (dag : DagData) (names : List CString) (tuple : BuildTupleData) :
    Option (List Nat) := do
  let nodes ← names.mapM (findNodeByName cwd dag tuple)
  return nodes.reduceOption

def DriverDag.targetSelectInput (dag : DriverDag) (targets : List CString) : TargetSelectInput where
  configNameHashes := dag.configNameHashes
  variantNameHashes := dag.variantNameHashes
  subVariantNameHashes := dag.subVariantNameHashes
  inputNames := targets
  defaultConfigIndex := dag.defaultConfigIndex
  defaultVariantIndex := dag.defaultVariantIndex
  defaultSubVariantIndex := dag.defaultSubVariantIndex

/-- The nodes of a tuple that are named, or the default ones. -/
def selectTuple (cwd : CString) (dag : DriverDag) (namedTargets : List CString) (tuple : BuildTupleData) :
    Option (List Nat) :=
  if 0 < namedTargets.length then findNodesByName cwd dag.toDagData namedTargets tuple else some tuple.defaultNodes

/-- The nodes of a target. The program ends if the DAG has no tuple for it. -/
def selectSpec (cwd : CString) (dag : DriverDag) (namedTargets : List CString) (spec : TargetSpec) :
    Option (List Nat) := do
  let tuple ← findBuildTuple dag spec
  let nodes ← selectTuple cwd dag namedTargets tuple
  return nodes ++ tuple.alwaysNodes

/-- `DriverSelectNodes`, or nothing where the program ends; the selected nodes are sorted and made unique. -/
def driverSelectNodes (cwd : CString) (dag : DriverDag) (targets : List CString) : Option (List Nat) := do
  let (targetSpecs, namedTargets) ← selectTargets (dag.targetSelectInput targets)
  let outNodes ← targetSpecs.mapM (selectSpec cwd dag namedTargets)
  return (outNodes.flatten.insertionSort (· ≤ ·)).destutter (· ≠ ·)

def kMaxPasses : Nat := 64

/-- The indices of a DAG are in range. -/
structure DriverDag.WellFormed (dag : DriverDag) : Prop where
  dependencies : ∀ node ∈ dag.nodeData, ∀ index ∈ node.dependencies, index < dag.nodeCount
  passIndex : ∀ node ∈ dag.nodeData, node.passIndex < dag.passes.length
  passes : dag.passes.length ≤ kMaxPasses
  defaultNodes : ∀ tuple ∈ dag.buildTuples, ∀ index ∈ tuple.defaultNodes, index < dag.nodeCount
  alwaysNodes : ∀ tuple ∈ dag.buildTuples, ∀ index ∈ tuple.alwaysNodes, index < dag.nodeCount
  namedNodes : ∀ tuple ∈ dag.buildTuples, ∀ named ∈ tuple.namedNodes, named.nodeIndex < dag.nodeCount

theorem DagData.node_mem {dag : DagData} {index : Nat} (hindex : index < dag.nodeCount) :
    dag.node index ∈ dag.nodeData := by
  rw [DagData.node, List.getD_eq_getElem _ _ hindex]
  exact List.getElem_mem hindex

variable {cwd : CString} {dag : DriverDag} {tuple : BuildTupleData} {targets names : List CString} {name : CString}
  {index : Nat}

theorem DriverDag.WellFormed.dependencies_lt (hdag : dag.WellFormed) :
    ∀ index ∈ Finset.range dag.nodeCount, ∀ dep ∈ dag.dependencies index, dep ∈ Finset.range dag.nodeCount := by
  intro index hindex dep hdep
  rw [Finset.mem_range] at hindex ⊢
  exact hdag.dependencies _ (DagData.node_mem hindex) dep hdep

/-- The walk from the named nodes of a tuple ends, and marks what can be reached from them. -/
theorem findReachableNodes_spec {dag : DagData}
    (hdependencies : ∀ index ∈ Finset.range dag.nodeCount, ∀ dep ∈ dag.dependencies index, dep ∈
    Finset.range dag.nodeCount)
    (hnamed : ∀ named ∈ tuple.namedNodes, named.nodeIndex < dag.nodeCount) :
    ∃ nodeBits, findReachableNodes dag tuple = some nodeBits ∧
      ∀ i, nodeBits.test i = true ↔
      ∃ named ∈ tuple.namedNodes, Marking.Reachable dag.dependencies named.nodeIndex i := by
  have hroots : ∀ i ∈ tuple.namedNodes.map NamedNodeData.nodeIndex, i ∈ Finset.range dag.nodeCount := by
    intro i hi
    obtain ⟨named, hmem, rfl⟩ := List.mem_map.mp hi
    exact Finset.mem_range.mpr (hnamed named hmem)
  have hfuel : (Finset.range dag.nodeCount).card < dag.nodeCount + 1 := by
    rw [Finset.card_range]
    omega
  obtain ⟨nodeBits, hbits, hexplored⟩ :=
    Marking.reach_list_spec (BitSet.marks_lawful dag.nodeCount) hdependencies hroots hfuel
    (s := .empty dag.nodeCount)
  refine ⟨nodeBits, hbits, fun i => ?_⟩
  have hexact := hexplored.exact (BitSet.test_empty dag.nodeCount) i
  simp only [List.mem_map, exists_exists_and_eq_and] at hexact
  exact hexact

/-- What can be reached from an index in range is in range. -/
theorem DriverDag.WellFormed.reachable_lt (hdag : dag.WellFormed) {root : Nat} (hroot : root < dag.nodeCount)
    (hreach : Marking.Reachable dag.dependencies root index) : index < dag.nodeCount := by
  induction hreach with
  | refl => exact hroot
  | tail _ hedge ih => exact Finset.mem_range.mp (hdag.dependencies_lt _ (Finset.mem_range.mpr ih) _ hedge)

/-- The loop over the words of a bit set meets only numbers of the set. -/
theorem test_of_mem_bitSetIndices {n : Nat} {nodeBits : BitSet n} (h : index ∈ bitSetIndices nodeBits) :
    nodeBits.test index = true := by
  obtain ⟨⟨word, i⟩, hword, hmem⟩ := List.mem_flatMap.mp h
  obtain ⟨bit, hbit, rfl⟩ := List.mem_map.mp hmem
  have hset := of_mem_bitIndicesFrom hbit
  have hlt : bit < 32 := BitVec.lt_of_getLsbD hset
  have hdiv : (32 * i + bit) / 32 = i := by omega
  have hmod : (32 * i + bit) % 32 = bit := by omega
  have hget : nodeBits.words[i]? = some word := List.mk_mem_zipIdx_iff_getElem?.mp hword
  rw [BitSet.test_eq_true_iff, hdiv, hmod, List.getD_eq_getElem?_getD, hget]
  exact hset

theorem findNodeByName_lt (hdag : dag.WellFormed) (htuple : tuple ∈ dag.buildTuples)
    (h : findNodeByName cwd dag.toDagData tuple name = some (some index)) : index < dag.nodeCount := by
  rw [findNodeByName] at h
  split at h
  · next named hnamed =>
    cases h
    exact hdag.namedNodes tuple htuple named (List.mem_of_find?_eq_some hnamed)
  · obtain ⟨nodeBits, hbits, hexact⟩ := findReachableNodes_spec hdag.dependencies_lt (hdag.namedNodes tuple htuple)
    rw [hbits] at h
    obtain ⟨filename, -, h⟩ := Option.bind_eq_some_iff.mp h
    have hfound := Option.some.inj h
    obtain ⟨named, hnamed, hreach⟩ := (hexact index).mp (test_of_mem_bitSetIndices (List.mem_of_find?_eq_some hfound))
    exact hdag.reachable_lt (hdag.namedNodes tuple htuple named hnamed) hreach

theorem findNodesByName_lt (hdag : dag.WellFormed) (htuple : tuple ∈ dag.buildTuples) {nodes : List Nat}
    (h : findNodesByName cwd dag.toDagData names tuple = some nodes) : ∀ index ∈ nodes, index < dag.nodeCount := by
  intro index hindex
  obtain ⟨found, hfound, hnodes⟩ := Option.bind_eq_some_iff.mp h
  rw [← Option.some.inj hnodes, List.reduceOption_mem_iff] at hindex
  obtain ⟨name, -, hname⟩ := (Bytes.mem_of_mapM_eq_some hfound).mp hindex
  exact findNodeByName_lt hdag htuple hname

theorem selectSpec_lt (hdag : dag.WellFormed) {spec : TargetSpec} {nodes : List Nat}
    (h : selectSpec cwd dag names spec = some nodes) :
    ∀ index ∈ nodes, index < dag.nodeCount := by
  obtain ⟨tuple, htuple, h⟩ := Option.bind_eq_some_iff.mp h
  obtain ⟨selected, hselected, h⟩ := Option.bind_eq_some_iff.mp h
  have hmem : tuple ∈ dag.buildTuples := List.mem_of_find?_eq_some htuple
  intro index hindex
  rw [← Option.some.inj h] at hindex
  rcases List.mem_append.mp hindex with hindex | hindex
  · rw [selectTuple] at hselected
    split at hselected
    · exact findNodesByName_lt hdag hmem hselected index hindex
    · rw [← Option.some.inj hselected] at hindex
      exact hdag.defaultNodes tuple hmem index hindex
  · exact hdag.alwaysNodes tuple hmem index hindex

theorem driverSelectNodes_lt (hdag : dag.WellFormed) {selected : List Nat}
    (h : driverSelectNodes cwd dag targets = some selected) :
    ∀ index ∈ selected, index < dag.nodeCount := by
  obtain ⟨⟨targetSpecs, namedTargets⟩, -, h⟩ := Option.bind_eq_some_iff.mp h
  obtain ⟨outNodes, hout, h⟩ := Option.bind_eq_some_iff.mp h
  intro index hindex
  rw [← Option.some.inj h] at hindex
  have hsorted := (List.destutter_sublist (· ≠ ·) _).subset hindex
  rw [List.mem_insertionSort, List.mem_flatten] at hsorted
  obtain ⟨nodes, hnodes, hindex⟩ := hsorted
  obtain ⟨spec, -, hspec⟩ := (Bytes.mem_of_mapM_eq_some hout).mp hnodes
  exact selectSpec_lt hdag hspec index hindex

end Tundra
