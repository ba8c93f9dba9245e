import Tundra.Common
import Mathlib.Algebra.Order.BigOperators.Group.Finset
import Mathlib.Order.WellFounded
import Mathlib.Data.Fintype.Order

/-!
# The node table

The frozen node data of `DagData.hpp`, the frozen records of `StateData.hpp`, and the table `DriverPrepareNodes`
hands to the build queue: the selected nodes sorted by pass, the remapping from DAG indices to positions in that
order, and the number of nodes of each pass.

A `NodeTable` carries what the DAG compiler and `DriverPrepareNodes` establish about it, so the queue never sees
a table whose selection is not closed under dependencies, whose back links are not the transpose of the
dependencies, or whose dependencies point to a later pass.
-/

namespace Tundra

/-- `FrozenFileAndHash`. -/
structure FileAndHash where
  filename : CString
  filenameHash : UInt32
deriving DecidableEq

structure KeywordData where
  string : CString
  shouldFollow : Bool
deriving DecidableEq

/-- `m_StringLength`, an `int16_t` that `WriteScanner` makes of the length of the string. -/
def KeywordData.stringLength (kw : KeywordData) : Int16 := .ofNat kw.string.bytes.length

/-- `ScannerType` with the extra fields of `GenericScannerData`, the flags one by one. -/
inductive ScannerType
  | cpp
  | generic (requireWhitespace useSeparators bareMeansSystem : Bool) (keywords : List KeywordData)
deriving DecidableEq

structure ScannerData where
  scannerType : ScannerType
  includePaths : List CString
  scannerGuid : HashDigest
deriving DecidableEq

structure EnvVarData where
  name : CString
  value : CString
deriving DecidableEq

/-- `NodeData`, with the bits of `m_Flags` one by one. `m_Action` is never null: `CheckInputSignature` hashes it. -/
structure NodeData where
  action : CString
  preAction : Option CString
  passIndex : Nat
  dependencies : List Nat
  backLinks : List Nat
  inputFiles : List FileAndHash
  outputFiles : List FileAndHash
  auxOutputFiles : List FileAndHash
  envVars : List EnvVarData
  scanner : Option ScannerData
  overwriteOutputs : Bool
  preciousOutputs : Bool
  expensive : Bool
deriving DecidableEq

def NodeData.empty : NodeData where
  action := ⟨[], List.not_mem_nil⟩
  preAction := none
  passIndex := 0
  dependencies := []
  backLinks := []
  inputFiles := []
  outputFiles := []
  auxOutputFiles := []
  envVars := []
  scanner := none
  overwriteOutputs := false
  preciousOutputs := false
  expensive := false

structure NodeStateData where
  buildResult : Int32
  inputSignature : HashDigest
  outputFiles : List CString
  auxOutputFiles : List CString
deriving DecidableEq

/-- The parts of `DagData` about the nodes; `m_NodeCount` is an `int32_t`. -/
structure DagData where
  nodeGuids : List HashDigest
  nodeData : List NodeData
  nodeGuids_length : nodeGuids.length = nodeData.length
  nodeCount_int : nodeData.length < 2 ^ 31

/-- `StateData`; `m_NodeCount` is an `int32_t`. -/
structure StateData where
  nodeGuids : List HashDigest
  nodeStates : List NodeStateData
  nodeGuids_length : nodeGuids.length = nodeStates.length
  nodeCount_int : nodeStates.length < 2 ^ 31

/-- The selected nodes as `DriverPrepareNodes` leaves them. Positions below `maxNodes` are positions in
`m_Nodes`; `mmapData` gives the DAG index behind one and `nodeRemap` goes back. -/
structure NodeTable where
  nodeData : Nat → NodeData
  maxNodes : Nat
  mmapData : Nat → Nat
  mmapState : Nat → Option NodeStateData
  nodeRemap : Nat → Option Nat
  passCount : Nat
  passNodeCount : Nat → Nat
  /-- `m_MaxNodes + 1` is an `int`. -/
  maxNodes_int : maxNodes + 1 < 2 ^ 31
  remap_mmapData : ∀ i < maxNodes, nodeRemap (mmapData i) = some i
  mmapData_remap : ∀ d i, nodeRemap d = some i → i < maxNodes ∧ mmapData i = d
  closed : ∀ i < maxNodes, ∀ d ∈ (nodeData (mmapData i)).dependencies, (nodeRemap d).isSome = true
  backLinks_transpose : ∀ i < maxNodes, ∀ j < maxNodes,
    mmapData j ∈ (nodeData (mmapData i)).backLinks ↔ mmapData i ∈ (nodeData (mmapData j)).dependencies
  passMonotone : ∀ i < maxNodes, ∀ d ∈ (nodeData (mmapData i)).dependencies,
    (nodeData d).passIndex ≤ (nodeData (mmapData i)).passIndex
  passIndex_lt : ∀ i < maxNodes, (nodeData (mmapData i)).passIndex < passCount
  passSorted : ∀ i < maxNodes,
    ∑ q ∈ Finset.range (nodeData (mmapData i)).passIndex, passNodeCount q ≤ i ∧
      i < ∑ q ∈ Finset.range ((nodeData (mmapData i)).passIndex + 1), passNodeCount q
  passTotal : ∑ q ∈ Finset.range passCount, passNodeCount q = maxNodes

namespace NodeTable

variable (tbl : NodeTable)

/-- The node data a position of the table points to. -/
def data (i : Nat) : NodeData := tbl.nodeData (tbl.mmapData i)

/-- The pass of the node at a position. -/
def pass (i : Nat) : Nat := (tbl.data i).passIndex

/-- `global_node_index` when a pass begins. -/
def passStart (p : Nat) : Nat := ∑ q ∈ Finset.range p, tbl.passNodeCount q

def getStateForNode (srcIndex : Nat) : Option Nat := tbl.nodeRemap srcIndex

/-- The positions of a node's dependencies, in the order and with the repetitions of `m_Dependencies`. -/
def deps (i : Nat) : List Nat := (tbl.data i).dependencies.filterMap tbl.getStateForNode

/-- The positions of the selected nodes among a node's back links. -/
def waiters (i : Nat) : List Nat := (tbl.data i).backLinks.filterMap tbl.getStateForNode

variable {tbl} {i j p : Nat}

theorem mem_deps_iff : j ∈ tbl.deps i ↔ j < tbl.maxNodes ∧ tbl.mmapData j ∈ (tbl.data i).dependencies := by
  rw [deps, List.mem_filterMap]
  constructor
  · rintro ⟨d, hd, hremap⟩
    obtain ⟨hj, rfl⟩ := tbl.mmapData_remap d j hremap
    exact ⟨hj, hd⟩
  · rintro ⟨hj, hd⟩
    exact ⟨_, hd, tbl.remap_mmapData j hj⟩

theorem lt_of_mem_deps (hj : j ∈ tbl.deps i) : j < tbl.maxNodes := (mem_deps_iff.mp hj).1

theorem mem_waiters_iff (hi : i < tbl.maxNodes) : j ∈ tbl.waiters i ↔ j < tbl.maxNodes ∧ i ∈ tbl.deps j := by
  rw [waiters, List.mem_filterMap]
  constructor
  · rintro ⟨d, hd, hremap⟩
    obtain ⟨hj, rfl⟩ := tbl.mmapData_remap d j hremap
    exact ⟨hj, mem_deps_iff.mpr ⟨hi, (tbl.backLinks_transpose i hi j hj).mp hd⟩⟩
  · rintro ⟨hj, hdep⟩
    have hd := (mem_deps_iff.mp hdep).2
    exact ⟨_, (tbl.backLinks_transpose i hi j hj).mpr hd, tbl.remap_mmapData j hj⟩

theorem pass_le_of_mem_deps (hi : i < tbl.maxNodes) (hj : j ∈ tbl.deps i) : tbl.pass j ≤ tbl.pass i :=
  tbl.passMonotone i hi _ (mem_deps_iff.mp hj).2

theorem passStart_succ (p : Nat) :
    tbl.passStart (p + 1) = tbl.passStart p + tbl.passNodeCount p := Finset.sum_range_succ _ _

theorem passStart_mono {p q : Nat} (h : p ≤ q) : tbl.passStart p ≤ tbl.passStart q :=
  Finset.sum_le_sum_of_subset (Finset.range_subset_range.mpr h)

theorem passStart_le_maxNodes (hp : p ≤ tbl.passCount) : tbl.passStart p ≤ tbl.maxNodes :=
  tbl.passTotal ▸ passStart_mono hp

/-- The nodes of a pass are the slice `[passStart p, passStart (p + 1))` of the table. -/
theorem pass_eq_iff (hi : i < tbl.maxNodes) : tbl.pass i = p ↔ tbl.passStart p ≤ i ∧ i < tbl.passStart (p + 1) := by
  have hown := tbl.passSorted i hi
  constructor
  · rintro rfl
    exact hown
  · rintro ⟨hlo, hhi⟩
    by_contra hne
    rcases Nat.lt_or_gt_of_ne hne with hlt | hgt
    · have hmono : tbl.passStart (tbl.pass i + 1) ≤ tbl.passStart p := passStart_mono hlt
      exact absurd hown.2 (not_lt.mpr (le_trans hmono hlo))
    · have hmono : tbl.passStart (p + 1) ≤ tbl.passStart (tbl.pass i) := passStart_mono hgt
      exact absurd (lt_of_lt_of_le hhi hmono) (not_lt.mpr hown.1)

theorem pass_lt (hi : i < tbl.maxNodes) : tbl.pass i < tbl.passCount := tbl.passIndex_lt i hi

/-- The dependency graph of the selected nodes has no cycle. -/
def Acyclic (tbl : NodeTable) : Prop :=
  ∀ i < tbl.maxNodes, ¬ Relation.TransGen (fun a b => a < tbl.maxNodes ∧ b < tbl.maxNodes ∧ a ∈ tbl.deps b) i i

theorem Acyclic.induction (hacyclic : tbl.Acyclic) {P : Nat → Prop}
    (hstep : ∀ i < tbl.maxNodes, (∀ j ∈ tbl.deps i, P j) → P i) (i : Nat) (hi : i < tbl.maxNodes) : P i := by
  let below : Fin tbl.maxNodes → Fin tbl.maxNodes → Prop := fun a b => a.val ∈ tbl.deps b.val
  have hirrefl : ∀ a, ¬ Relation.TransGen below a a := by
    intro a ha
    exact hacyclic a.val a.isLt (ha.lift Fin.val fun x y hxy => ⟨x.isLt, y.isLt, hxy⟩)
  have hwf : WellFounded (Relation.TransGen below) :=
    @Finite.wellFounded_of_trans_of_irrefl _ _ _ ⟨fun _ _ _ => Relation.TransGen.trans⟩ ⟨hirrefl⟩
  have hall : ∀ a : Fin tbl.maxNodes, P a.val := by
    intro a
    induction a using hwf.induction with
    | h a ih =>
        refine hstep a.val a.isLt fun j hj => ?_
        exact ih ⟨j, lt_of_mem_deps hj⟩ (.single hj)
  exact hall ⟨i, hi⟩

theorem acyclic_of_lt (h : ∀ i < tbl.maxNodes, ∀ d ∈ tbl.deps i, d < i) : tbl.Acyclic := by
  intro i _ hcycle
  have hlt : ∀ {a b : Nat}, Relation.TransGen (fun a b => a < tbl.maxNodes ∧ b < tbl.maxNodes ∧ a ∈ tbl.deps b) a b →
    a < b := by
    intro a b hab
    induction hab with
    | single hab => exact h _ hab.2.1 _ hab.2.2
    | tail _ hbc ih => exact lt_trans ih (h _ hbc.2.1 _ hbc.2.2)
  exact lt_irrefl i (hlt hcycle)

/-- What it takes for a list of nodes, all selected and in the order of the DAG, to be a table. -/
def Whole (nodes : List NodeData) (passCount : Nat) : Prop :=
  let node := fun i => nodes[i]?.getD NodeData.empty
  let passNodeCount := fun p => nodes.countP fun n => n.passIndex = p
  nodes.length + 1 < 2 ^ 31 ∧
  (∀ i < nodes.length, ∀ d ∈ (node i).dependencies, d < nodes.length ∧ (node d).passIndex ≤ (node i).passIndex) ∧
  (∀ i < nodes.length, ∀ j < nodes.length, j ∈ (node i).backLinks ↔ i ∈ (node j).dependencies) ∧
  (∀ i < nodes.length, (node i).passIndex < passCount) ∧
  (∀ i < nodes.length, ∑ q ∈ Finset.range (node i).passIndex, passNodeCount q ≤ i ∧
    i < ∑ q ∈ Finset.range ((node i).passIndex + 1), passNodeCount q) ∧
  ∑ q ∈ Finset.range passCount, passNodeCount q = nodes.length

instance (nodes : List NodeData) (passCount : Nat) : Decidable (Whole nodes passCount) := by
  unfold Whole
  infer_instance

/-- The table of a build that selects every node of a DAG whose nodes are sorted by pass. -/
def whole (nodes : List NodeData) (passCount : Nat) (mmapState : Nat → Option NodeStateData)
    (h : Whole nodes passCount) :
    NodeTable where
  nodeData i := nodes[i]?.getD NodeData.empty
  maxNodes := nodes.length
  mmapData i := i
  mmapState := mmapState
  nodeRemap d := if d < nodes.length then some d else none
  passCount := passCount
  passNodeCount p := nodes.countP fun n => n.passIndex = p
  maxNodes_int := h.1
  remap_mmapData i hi := by simp [hi]
  mmapData_remap d i hremap := by
    simp only [Option.ite_none_right_eq_some, Option.some.injEq] at hremap
    omega
  closed i hi d hd := by simp [(h.2.1 i hi d hd).1]
  backLinks_transpose := h.2.2.1
  passMonotone i hi d hd := (h.2.1 i hi d hd).2
  passIndex_lt := h.2.2.2.1
  passSorted := h.2.2.2.2.1
  passTotal := h.2.2.2.2.2

end NodeTable

end Tundra
