import Tundra.Driver.Select
import Tundra.StateFile.Sound

/-!
# Preparing nodes

`DriverPrepareNodes` turns the selected nodes into the table the build queue works on. It collects what they
depend on, counts the nodes of each pass, looks up what the previous build left of each node, sorts the nodes by
pass and makes a table from indices in the DAG to positions in that order. The order `std::sort` leaves within a
pass is not fixed: the sort is a parameter.
-/

namespace Tundra

/-- The fields of `NodeState` that are set up here: the index in the DAG `m_MmapData` points to, the pass, and
the index in the previous state `m_MmapState` points to. -/
structure LocalNode where
  mmapData : Nat
  passIndex : UInt16
  mmapState : Option Nat
deriving DecidableEq

/-- What the traversal fills in; `node_count` is the number of `node_indices`. -/
structure Traversal where
  nodeIndices : List Nat
  passNodeCount : List Nat

/-- `m_Nodes`, `m_NodeRemap` and `m_PassNodeCount`. -/
structure WorkingSet where
  nodes : List LocalNode
  nodeRemap : List Int
  passNodeCount : List Nat
deriving DecidableEq

section Prepare

variable (sort : List LocalNode → List LocalNode) (dag : DagData) (prev : Option StateData)

/-- What the traversal does with a node it has not been to. -/
def visitNode (t : Traversal) (index : Nat) : Traversal :=
  ⟨t.nodeIndices ++ [index], t.passNodeCount.modify (dag.node index).passIndex (· + 1)⟩

/-- More steps than the traversal has: each selected node and each dependency of a node is taken from the stack once. -/
def traversalSteps (selected : List Nat) :
    Nat := selected.length + ∑ index ∈ Finset.range dag.nodeCount, (dag.dependencies index).length + 1

/-- The loop over the node stack, which begins with the last node that was selected. -/
def traverseNodes (selected : List Nat) : Option Traversal :=
  (BitSet.marks dag.nodeCount).walk dag.dependencies (visitNode dag) (traversalSteps dag selected)
    (.empty dag.nodeCount) selected.reverse
    ⟨[], List.replicate kMaxPasses 0⟩

/-- The node state of a node, with the record a search for its guid finds. -/
def initNode (index : Nat) : LocalNode where
  mmapData := index
  passIndex := .ofNat (dag.node index).passIndex
  mmapState := prev.bind fun state => binarySearch compareHashDigests state.nodeGuids (dag.guid index)

/-- The remapping table of the nodes in their final order. -/
def remapNodes (nodeCount : Nat) (nodes : List LocalNode) : List Int :=
  nodes.zipIdx.foldl (fun nodeRemap node => nodeRemap.set node.1.mmapData node.2) (List.replicate nodeCount (-1))

/-- `DriverPrepareNodes` after the selection. -/
def prepareSelected (selected : List Nat) : Option WorkingSet := do
  let t ← traverseNodes dag selected
  let nodes := sort (t.nodeIndices.map (initNode dag prev))
  return ⟨nodes, remapNodes dag.nodeCount nodes, t.passNodeCount⟩

end Prepare

def driverPrepareNodes (sort : List LocalNode → List LocalNode) (cwd : CString) (dag : DriverDag)
    (prev : Option StateData) (targets : List CString) : Option WorkingSet := do
  let selected ← driverSelectNodes cwd dag targets
  prepareSelected sort dag.toDagData prev selected

/-- `std::sort` with `compare_node_passes`. -/
structure SortsByPass (sort : List LocalNode → List LocalNode) : Prop where
  perm : ∀ nodes, (sort nodes).Perm nodes
  sorted : ∀ nodes, (sort nodes).Pairwise fun l r => l.passIndex ≤ r.passIndex

/-- The working set the build needs for the selected nodes. -/
structure WorkingSet.Exact (dag : DagData) (prev : Option StateData) (selected : List Nat) (set : WorkingSet) :
    Prop where
  nodup : (set.nodes.map LocalNode.mmapData).Nodup
  reachable : ∀ index, index ∈ set.nodes.map LocalNode.mmapData ↔
    ∃ root ∈ selected, Marking.Reachable dag.dependencies root index
  passIndex : ∀ node ∈ set.nodes, node.passIndex.toNat = (dag.node node.mmapData).passIndex
  passCounts : set.passNodeCount.length = kMaxPasses
  passCount : ∀ p < kMaxPasses, set.passNodeCount.getD p 0 = set.nodes.countP fun node => node.passIndex.toNat = p
  passSlice : ∀ p < kMaxPasses, ∀ k, (∃ node, set.nodes[k]? = some node ∧ node.passIndex.toNat = p) ↔
    (set.passNodeCount.take p).sum ≤ k ∧ k < (set.passNodeCount.take p).sum + set.passNodeCount.getD p 0
  remapCount : set.nodeRemap.length = dag.nodeCount
  remap : ∀ (k : Nat) (node : LocalNode), set.nodes[k]? = some node → set.nodeRemap[node.mmapData]? = some (k : Int)
  remap_none : ∀ index < dag.nodeCount, index ∉ set.nodes.map LocalNode.mmapData → set.nodeRemap[index]? = some (-1)
  mmapState : ∀ node ∈ set.nodes, ∀ k,
    node.mmapState = some k ↔ ∃ state, prev = some state ∧ state.nodeGuids[k]? = some (dag.guid node.mmapData)

/-! ### The traversal -/

variable {sort : List LocalNode → List LocalNode} {cwd : CString} {dag : DriverDag} {prev : Option StateData}
  {targets : List CString}
  {selected : List Nat}

/-- The nodes visited are the indices, and each is counted for its pass. -/
theorem foldl_visitNode (data : DagData) (order : List Nat) (t : Traversal) :
    (order.foldl (visitNode data) t).nodeIndices = t.nodeIndices ++ order ∧
      (order.foldl (visitNode data) t).passNodeCount.length = t.passNodeCount.length ∧
      ∀ p < t.passNodeCount.length, (order.foldl (visitNode data) t).passNodeCount.getD p 0 =
        t.passNodeCount.getD p 0 + order.countP fun index => (data.node index).passIndex = p := by
  induction order generalizing t with
  | nil => simp
  | cons index order ih =>
      obtain ⟨hindices, hlength, hcount⟩ := ih (visitNode data t index)
      have hsize : (visitNode data t index).passNodeCount.length = t.passNodeCount.length := List.length_modify _ _ _
      refine ⟨?_, hlength.trans hsize, fun p hp => ?_⟩
      · rw [List.foldl_cons, hindices, visitNode, List.append_assoc]
        exact congrArg _ List.singleton_append
      · have hvisit : (visitNode data t index).passNodeCount.getD p 0 =
            t.passNodeCount.getD p 0 + if (data.node index).passIndex = p then 1 else 0 := by
          simp only [visitNode, List.getD_eq_getElem?_getD, List.getElem?_modify, List.getElem?_eq_getElem hp]
          split_ifs <;> simp
        rw [List.foldl_cons, hcount p (by rwa [hsize]), hvisit, List.countP_cons]
        simp only [decide_eq_true_eq]
        omega

/-- The traversal ends. It has been to each node the selected ones lead to once, and has counted them by pass. -/
theorem traverseNodes_spec (hdag : dag.WellFormed) (hselected : ∀ index ∈ selected, index < dag.nodeCount) :
    ∃ t, traverseNodes dag.toDagData selected = some t ∧ t.nodeIndices.Nodup ∧
      (∀ index, index ∈ t.nodeIndices ↔ ∃ root ∈ selected, Marking.Reachable dag.dependencies root index) ∧
      t.passNodeCount.length = kMaxPasses ∧
      ∀ p < kMaxPasses, t.passNodeCount.getD p 0 = t.nodeIndices.countP fun index => (dag.node index).passIndex =
      p := by
  have hstack : ∀ index ∈ selected.reverse, index ∈ Finset.range dag.nodeCount := fun index hindex =>
    Finset.mem_range.mpr (hselected index (List.mem_reverse.mp hindex))
  have hsteps : selected.reverse.length + ∑ index ∈ Finset.range dag.nodeCount, (dag.dependencies index).length <
      traversalSteps dag.toDagData selected := by
    rw [List.length_reverse, traversalSteps]
    omega
  obtain ⟨order, hwalk, hnodup, hreach⟩ := Marking.walk_spec (BitSet.marks_lawful dag.nodeCount) hdag.dependencies_lt
    (visitNode dag.toDagData) ⟨[], List.replicate kMaxPasses 0⟩ (BitSet.test_empty dag.nodeCount) hstack hsteps
  obtain ⟨hindices, hlength, hcount⟩ := foldl_visitNode dag.toDagData order ⟨[], List.replicate kMaxPasses 0⟩
  simp only [List.nil_append] at hindices
  simp only [List.length_replicate] at hlength hcount
  refine ⟨_, hwalk, ?_, fun index => ?_, hlength, fun p hp => ?_⟩
  · rwa [hindices]
  · rw [hindices, hreach index]
    simp only [List.mem_reverse]
  · rw [hcount p hp, hindices, List.getD_replicate _ hp, Nat.zero_add]

/-! ### The slices of the passes -/

/-- In a list sorted by a key, as many elements have a smaller key as stand before the first one that has not. -/
theorem countP_lt_le_iff {α : Type} {l : List α} {key : α → Nat} (hsorted : l.Pairwise fun a b => key a ≤ key b)
    {k : Nat} {a : α} (ha : l[k]? = some a) (p : Nat) : l.countP (fun b => key b < p) ≤ k ↔ p ≤ key a := by
  induction l generalizing k with
  | nil => simp at ha
  | cons b l ih =>
      rw [List.pairwise_cons] at hsorted
      by_cases hb : key b < p
      · rw [List.countP_cons_of_pos (by simpa using hb)]
        cases k with
        | zero =>
            cases ha
            omega
        | succ k =>
            rw [List.getElem?_cons_succ] at ha
            rw [Nat.add_le_add_iff_right, ih hsorted.2 ha]
      · have hzero : (b :: l).countP (fun c => key c < p) = 0 := by
          rw [List.countP_eq_zero]
          intro c hc
          rcases List.mem_cons.mp hc with rfl | hc
          · simpa using hb
          · have := hsorted.1 c hc
            simp only [decide_eq_true_eq]
            omega
        have hle : key b ≤ key a := by
          rcases List.mem_cons.mp (List.mem_of_getElem? ha) with rfl | hmem
          · exact le_rfl
          · exact hsorted.1 a hmem
        rw [hzero]
        exact ⟨fun _ => by omega, fun _ => Nat.zero_le k⟩

theorem sum_take_succ {counts : List Nat} {p : Nat} (hp : p < counts.length) :
    (counts.take (p + 1)).sum = (counts.take p).sum + counts.getD p 0 := by
  rw [List.take_succ_eq_append_getElem hp, List.sum_append, List.getD_eq_getElem _ _ hp]
  simp

/-- The elements with a smaller key, counted one key after the other. -/
theorem sum_take_counts {α : Type} {l : List α} {key : α → Nat} {counts : List Nat}
    (hcounts : ∀ p < counts.length, counts.getD p 0 = l.countP fun a => key a = p) {p : Nat} (hp : p ≤ counts.length) :
    (counts.take p).sum = l.countP fun a => key a < p := by
  induction p with
  | zero => simp
  | succ p ih =>
      have hsplit : (l.countP fun a => key a < p + 1) = (l.countP fun a => key a < p) + l.countP fun a => key a =
        p := by
        clear hcounts ih
        induction l with
        | nil => rfl
        | cons a l ih =>
            simp only [List.countP_cons, ih, decide_eq_true_eq]
            split_ifs <;> omega
      rw [sum_take_succ hp, ih (by omega), hsplit, hcounts p hp]

/-- In a list sorted by a key, the elements with one key are a slice. -/
theorem slice_iff {α : Type} {l : List α} {key : α → Nat} {counts : List Nat}
    (hsorted : l.Pairwise fun a b => key a ≤ key b)
    (hcounts : ∀ p < counts.length, counts.getD p 0 = l.countP fun a => key a = p) {p : Nat}
    (hp : p < counts.length) (k : Nat) :
    (∃ a, l[k]? = some a ∧ key a = p) ↔ (counts.take p).sum ≤ k ∧ k < (counts.take p).sum + counts.getD p 0 := by
  rw [← sum_take_succ hp, sum_take_counts hcounts hp.le, sum_take_counts hcounts (Nat.add_one_le_iff.mpr hp)]
  constructor
  · rintro ⟨a, ha, hkey⟩
    have hlow := countP_lt_le_iff hsorted ha p
    have hhigh := countP_lt_le_iff hsorted ha (p + 1)
    omega
  · rintro ⟨hlow, hhigh⟩
    have hk : k < l.length := lt_of_lt_of_le hhigh List.countP_le_length
    have ha : l[k]? = some l[k] := List.getElem?_eq_getElem hk
    refine ⟨l[k], ha, ?_⟩
    have hlow' := countP_lt_le_iff hsorted ha p
    have hhigh' := countP_lt_le_iff hsorted ha (p + 1)
    omega

/-! ### The remapping table -/

theorem length_foldl_set {α : Type} (f : α → Nat) (g : α → Int) (xs : List α) (table : List Int) :
    (xs.foldl (fun table x => table.set (f x) (g x)) table).length = table.length := by
  induction xs generalizing table with
  | nil => rfl
  | cons x xs ih => rw [List.foldl_cons, ih, List.length_set]

theorem getElem?_foldl_set_of_not_mem {α : Type} {f : α → Nat} {g : α → Int} {xs : List α} {table : List Int} {i : Nat}
    (hi : i ∉ xs.map f) : (xs.foldl (fun table x => table.set (f x) (g x)) table)[i]? = table[i]? := by
  induction xs generalizing table with
  | nil => rfl
  | cons x xs ih =>
      rw [List.map_cons, List.mem_cons, not_or] at hi
      rw [List.foldl_cons, ih hi.2, List.getElem?_set_ne (Ne.symm hi.1)]

theorem getElem?_foldl_set_of_mem {α : Type} {f : α → Nat} {g : α → Int} {xs : List α} {table : List Int} {x : α}
    (hx : x ∈ xs) (hnodup : (xs.map f).Nodup) (hlt : f x < table.length) :
    (xs.foldl (fun table x => table.set (f x) (g x)) table)[f x]? = some (g x) := by
  induction xs generalizing table with
  | nil => cases hx
  | cons y xs ih =>
      rw [List.map_cons, List.nodup_cons] at hnodup
      rw [List.foldl_cons]
      rcases List.mem_cons.mp hx with rfl | hx
      · rw [getElem?_foldl_set_of_not_mem hnodup.1, List.getElem?_set_self hlt]
      · exact ih hx hnodup.2 (by rwa [List.length_set])

theorem map_mmapData_zipIdx (nodes : List LocalNode) :
    (nodes.zipIdx.map fun node => node.1.mmapData) = nodes.map LocalNode.mmapData := by
  have hmap : (nodes.zipIdx.map Prod.fst).map LocalNode.mmapData = nodes.map LocalNode.mmapData := by
    rw [List.zipIdx_map_fst]
  rw [List.map_map] at hmap
  exact hmap

/-- The table takes the index of a node to its position, and all other indices to -1. -/
theorem remapNodes_spec {nodeCount : Nat} {nodes : List LocalNode} (hnodup : (nodes.map LocalNode.mmapData).Nodup)
    (hlt : ∀ node ∈ nodes, node.mmapData < nodeCount) :
    (remapNodes nodeCount nodes).length = nodeCount ∧
      (∀ (k : Nat) (node : LocalNode), nodes[k]? = some node →
      (remapNodes nodeCount nodes)[node.mmapData]? = some (k : Int)) ∧
      ∀ index < nodeCount, index ∉ nodes.map LocalNode.mmapData → (remapNodes nodeCount nodes)[index]? = some (-1) := by
  rw [← map_mmapData_zipIdx] at hnodup
  refine ⟨?_, ?_, ?_⟩
  · rw [remapNodes, length_foldl_set (fun node : LocalNode × Nat => node.1.mmapData), List.length_replicate]
  · intro k node hnode
    have hmem : (node, k) ∈ nodes.zipIdx := List.mk_mem_zipIdx_iff_getElem?.mpr hnode
    refine getElem?_foldl_set_of_mem (f := fun node : LocalNode × Nat => node.1.mmapData) hmem hnodup ?_
    rw [List.length_replicate]
    exact hlt node (List.mem_of_getElem? hnode)
  · intro index hindex hmem
    rw [← map_mmapData_zipIdx] at hmem
    rw [remapNodes, getElem?_foldl_set_of_not_mem (f := fun node : LocalNode × Nat => node.1.mmapData) hmem]
    exact List.getElem?_replicate_of_lt hindex

/-! ### The working set -/

/-- The search for a guid finds the record that has it. -/
theorem initNode_mmapState {data : DagData} (hprev : Ascending prev) (index k : Nat) :
    (initNode data prev index).mmapState = some k ↔ ∃ state, prev = some state ∧ state.nodeGuids[k]? = some
    (data.guid index) := by
  cases prev with
  | none => simp [initNode]
  | some state =>
      rw [Ascending, map_fst_oldRecords] at hprev
      simp only [initNode, Option.bind_some, binarySearch_eq_some compares_hashDigests hprev, Option.some.injEq,
        exists_eq_left']

theorem initNode_passIndex (hdag : dag.WellFormed) {index : Nat} (hindex : index < dag.nodeCount) :
    (initNode dag.toDagData prev index).passIndex.toNat = (dag.node index).passIndex := by
  have hpass := hdag.passIndex _ (DagData.node_mem hindex)
  have hpasses := hdag.passes
  rw [kMaxPasses] at hpasses
  rw [initNode, UInt16.toNat_ofNat']
  omega

theorem prepareSelected_exact (hsort : SortsByPass sort) (hdag : dag.WellFormed) (hprev : Ascending prev)
    (hselected : ∀ index ∈ selected, index < dag.nodeCount) :
    ∃ set, prepareSelected sort dag.toDagData prev selected = some set ∧ set.Exact dag.toDagData prev selected := by
  obtain ⟨t, ht, hnodup, hreach, hlength, hcount⟩ := traverseNodes_spec hdag hselected
  have hlt : ∀ index ∈ t.nodeIndices, index < dag.nodeCount := by
    intro index hindex
    obtain ⟨root, hroot, hpath⟩ := (hreach index).mp hindex
    exact hdag.reachable_lt (hselected root hroot) hpath
  have hperm := hsort.perm (t.nodeIndices.map (initNode dag.toDagData prev))
  have hsorted := hsort.sorted (t.nodeIndices.map (initNode dag.toDagData prev))
  generalize hnodes : sort (t.nodeIndices.map (initNode dag.toDagData prev)) = nodes at hperm hsorted
  have hmem : ∀ node ∈ nodes, ∃ index ∈ t.nodeIndices, initNode dag.toDagData prev index = node := fun node hnode =>
    List.mem_map.mp (hperm.mem_iff.mp hnode)
  have hindices : (nodes.map LocalNode.mmapData).Perm t.nodeIndices := by
    refine (hperm.map LocalNode.mmapData).trans (.of_eq ?_)
    rw [List.map_map]
    exact List.map_id _
  have hcounted : ∀ p < t.passNodeCount.length, t.passNodeCount.getD p 0 = nodes.countP
    fun node => node.passIndex.toNat = p := by
    intro p hp
    rw [hcount p (hlength ▸ hp), hperm.countP_eq, List.countP_map]
    refine List.countP_congr fun index hindex => ?_
    simp [initNode_passIndex hdag (hlt index hindex)]
  obtain ⟨hremapLength, hremap, hremapNone⟩ := remapNodes_spec (hindices.nodup_iff.mpr hnodup) fun node hnode =>
    hlt _ (hindices.mem_iff.mp (List.mem_map_of_mem hnode))
  refine ⟨⟨nodes, remapNodes dag.nodeCount nodes, t.passNodeCount⟩, ?_, ?_⟩
  · rw [prepareSelected, ht, ← hnodes]
    rfl
  · refine ⟨hindices.nodup_iff.mpr hnodup, fun index => ?_, ?_, hlength, fun p hp => hcounted p (hlength ▸ hp), ?_,
      hremapLength, hremap,
      hremapNone, ?_⟩
    · rw [← hreach index]
      exact hindices.mem_iff
    · intro node hnode
      obtain ⟨index, hindex, rfl⟩ := hmem node hnode
      exact initNode_passIndex hdag (hlt index hindex)
    · intro p hp k
      exact slice_iff (hsorted.imp fun h => UInt16.le_iff_toNat_le.mp h) hcounted (hlength ▸ hp) k
    · intro node hnode k
      obtain ⟨index, -, rfl⟩ := hmem node hnode
      exact initNode_mmapState hprev index k

/-! ### The table of the build queue -/

/-- What the DAG compiler adds to a DAG for the queue: the back links are the dependencies the other way round,
and no dependency is in a later pass. -/
structure DriverDag.Queueable (dag : DriverDag) : Prop where
  backLinks : ∀ i < dag.nodeCount, ∀ j < dag.nodeCount, j ∈ (dag.node i).backLinks ↔ i ∈ dag.dependencies j
  passMonotone : ∀ i < dag.nodeCount, ∀ dep ∈ dag.dependencies i, (dag.node dep).passIndex ≤ (dag.node i).passIndex

variable {set : WorkingSet}

/-- The position of a node in the remapping table. -/
def WorkingSet.position (set : WorkingSet) (index : Nat) : Option Nat := (set.nodeRemap[index]?).bind Int.toNat?

/-- The index of the node at a position. -/
def WorkingSet.index (set : WorkingSet) (k : Nat) : Nat := (set.nodes.map LocalNode.mmapData).getD k 0

theorem WorkingSet.index_mem {k : Nat} (hk : k < set.nodes.length) :
    set.index k ∈ set.nodes.map LocalNode.mmapData := by
  rw [WorkingSet.index, List.getD_eq_getElem _ _ (by rwa [List.length_map])]
  exact List.getElem_mem _

theorem WorkingSet.index_eq {k : Nat} (hk : k < set.nodes.length) : set.index k = set.nodes[k].mmapData := by
  rw [WorkingSet.index, List.getD_eq_getElem _ _ (by rwa [List.length_map]), List.getElem_map]

theorem WorkingSet.Exact.position_index (hset : set.Exact dag.toDagData prev selected) {k : Nat}
    (hk : k < set.nodes.length) :
    set.position (set.index k) = some k := by
  rw [WorkingSet.position, WorkingSet.index_eq hk, hset.remap k _ (List.getElem?_eq_getElem hk)]
  rfl

theorem WorkingSet.Exact.index_position (hset : set.Exact dag.toDagData prev selected) {index k : Nat}
    (h : set.position index = some k) :
    k < set.nodes.length ∧ set.index k = index := by
  obtain ⟨value, hvalue, hk⟩ := Option.bind_eq_some_iff.mp h
  have hindex : index < dag.nodeCount := hset.remapCount ▸ (List.getElem?_eq_some_iff.mp hvalue).1
  have hmem : index ∈ set.nodes.map LocalNode.mmapData := by
    by_contra hmem
    rw [hset.remap_none index hindex hmem] at hvalue
    rw [← Option.some.inj hvalue] at hk
    cases hk
  obtain ⟨node, hnode, rfl⟩ := List.mem_map.mp hmem
  obtain ⟨j, hj⟩ := List.mem_iff_getElem?.mp hnode
  rw [hset.remap j node hj] at hvalue
  rw [← Option.some.inj hvalue] at hk
  obtain rfl : j = k := Option.some.inj hk
  have hlt := (List.getElem?_eq_some_iff.mp hj).1
  refine ⟨hlt, ?_⟩
  rw [WorkingSet.index_eq hlt, (List.getElem?_eq_some_iff.mp hj).2]

theorem WorkingSet.Exact.index_lt (hdag : dag.WellFormed) (hselected : ∀ index ∈ selected, index < dag.nodeCount)
    (hset : set.Exact dag.toDagData prev selected) {k : Nat} (hk : k < set.nodes.length) :
    set.index k < dag.nodeCount := by
  obtain ⟨root, hroot, hreach⟩ := (hset.reachable _).mp (WorkingSet.index_mem hk)
  exact hdag.reachable_lt (hselected root hroot) hreach

theorem WorkingSet.Exact.closed (hset : set.Exact dag.toDagData prev selected) {k : Nat} (hk : k < set.nodes.length)
    {dep : Nat} (hdep : dep ∈ dag.dependencies (set.index k)) : (set.position dep).isSome = true := by
  obtain ⟨root, hroot, hreach⟩ := (hset.reachable _).mp (WorkingSet.index_mem hk)
  have hmem : dep ∈ set.nodes.map LocalNode.mmapData := (hset.reachable dep).mpr ⟨root, hroot, hreach.tail hdep⟩
  obtain ⟨node, hnode, rfl⟩ := List.mem_map.mp hmem
  obtain ⟨j, hj⟩ := List.mem_iff_getElem?.mp hnode
  rw [WorkingSet.position, hset.remap j node hj]
  rfl

theorem sum_range_getD (counts : List Nat) (p : Nat) : ∑ q ∈ Finset.range p, counts.getD q 0 = (counts.take p).sum := by
  induction p with
  | zero => simp
  | succ p ih =>
      rw [Finset.sum_range_succ, ih]
      by_cases hp : p < counts.length
      · rw [sum_take_succ hp]
      · rw [List.getD_eq_default _ _ (not_lt.mp hp), List.take_of_length_le (not_lt.mp hp),
          List.take_of_length_le (by omega), Nat.add_zero]

theorem WorkingSet.Exact.passIndex_index (hset : set.Exact dag.toDagData prev selected) {k : Nat}
    (hk : k < set.nodes.length) :
    set.nodes[k].passIndex.toNat = (dag.node (set.index k)).passIndex := by
  rw [hset.passIndex _ (List.getElem_mem hk), WorkingSet.index_eq hk]

/-- The record of the previous state the node at a position points to. -/
def WorkingSet.record (set : WorkingSet) (prev : Option StateData) (k : Nat) : Option NodeStateData :=
  prev.bind fun state => (set.nodes[k]?.bind LocalNode.mmapState).bind fun i => state.nodeStates[i]?

theorem WorkingSet.Exact.record_eq (hprev : Ascending prev) (hset : set.Exact dag.toDagData prev selected) {k : Nat}
    (hk : k < set.nodes.length) : set.record prev k = findOld prev (dag.guid (set.index k)) := by
  cases prev with
  | none => rfl
  | some state =>
      rw [Ascending, map_fst_oldRecords] at hprev
      have hsearch : set.nodes[k].mmapState =
        binarySearch compareHashDigests state.nodeGuids (dag.guid (set.index k)) := by
        apply Option.ext
        intro i
        rw [hset.mmapState _ (List.getElem_mem hk), binarySearch_eq_some compares_hashDigests hprev,
          WorkingSet.index_eq hk]
        simp
      rw [WorkingSet.record, findOld, Option.bind_some, List.getElem?_eq_getElem hk, Option.bind_some, hsearch]

structure WorkingSet.IsTable (set : WorkingSet) (dag : DriverDag) (prev : Option StateData) (tbl : NodeTable) :
    Prop where
  maxNodes : tbl.maxNodes = set.nodes.length
  mmapData : tbl.mmapData = set.index
  mmapState : tbl.mmapState = set.record prev
  nodeRemap : tbl.nodeRemap = set.position
  passCount : tbl.passCount = dag.passes.length
  passNodeCount : tbl.passNodeCount = fun p => set.passNodeCount.getD p 0
  prepared : Prepared dag.toDagData prev tbl

theorem WorkingSet.Exact.exists_table (hdag : dag.WellFormed) (hqueue : dag.Queueable) (hprev : Ascending prev)
    (hselected : ∀ index ∈ selected, index < dag.nodeCount) (hset : set.Exact dag.toDagData prev selected)
    (hcount : set.nodes.length + 1 < 2 ^ 31) :
    ∃ tbl, set.IsTable dag prev tbl := by
  have hlt : ∀ k < set.nodes.length, set.index k < dag.nodeCount := fun k hk => hset.index_lt hdag hselected hk
  have hpass : ∀ k < set.nodes.length, (dag.node (set.index k)).passIndex < dag.passes.length := fun k hk =>
    hdag.passIndex _ (DagData.node_mem (hlt k hk))
  have hsorted : ∀ k < set.nodes.length, ∑ q ∈ Finset.range (dag.node (set.index k)).passIndex,
    set.passNodeCount.getD q 0 ≤ k ∧
      k < ∑ q ∈ Finset.range ((dag.node (set.index k)).passIndex + 1), set.passNodeCount.getD q 0 := by
    intro k hk
    rw [Finset.sum_range_succ, sum_range_getD]
    exact (hset.passSlice _ (lt_of_lt_of_le (hpass k hk) hdag.passes) k).mp
      ⟨_, List.getElem?_eq_getElem hk, hset.passIndex_index hk⟩
  have htotal : ∑ q ∈ Finset.range dag.passes.length, set.passNodeCount.getD q 0 = set.nodes.length := by
    have hcounts : ∀ p < set.passNodeCount.length, set.passNodeCount.getD p 0 = set.nodes.countP
      fun node => node.passIndex.toNat = p :=
      fun p hp => hset.passCount p (hset.passCounts ▸ hp)
    rw [sum_range_getD, sum_take_counts hcounts (hset.passCounts ▸ hdag.passes), List.countP_eq_length]
    intro node hnode
    obtain ⟨k, hk, rfl⟩ := List.mem_iff_getElem.mp hnode
    rw [decide_eq_true_eq, hset.passIndex_index hk]
    exact hpass k hk
  refine ⟨{
    nodeData := dag.node
    maxNodes := set.nodes.length
    mmapData := set.index
    mmapState := set.record prev
    nodeRemap := set.position
    passCount := dag.passes.length
    passNodeCount := fun p => set.passNodeCount.getD p 0
    maxNodes_int := hcount
    remap_mmapData := fun k hk => hset.position_index hk
    mmapData_remap := fun index k h => hset.index_position h
    closed := fun k hk dep hdep => hset.closed hk hdep
    backLinks_transpose := fun i hi j hj => hqueue.backLinks _ (hlt i hi) _ (hlt j hj)
    passMonotone := fun k hk => hqueue.passMonotone _ (hlt k hk)
    passIndex_lt := hpass
    passSorted := hsorted
    passTotal := htotal }, rfl, rfl, rfl, rfl, rfl, rfl, hlt, fun _ _ => rfl, fun k hk => hset.record_eq hprev hk⟩

/-- `DriverPrepareNodes` builds exactly the working set of the selected nodes. For a DAG that the compiler has
made, the build queue finds its table in it. -/
theorem driverPrepareNodes_exact (hsort : SortsByPass sort) (hdag : dag.WellFormed) (hprev : Ascending prev)
    (hselect : driverSelectNodes cwd dag targets = some selected) :
    ∃ set, driverPrepareNodes sort cwd dag prev targets = some set ∧ set.Exact dag.toDagData prev selected ∧
      (dag.Queueable → set.nodes.length + 1 < 2 ^ 31 → ∃ tbl, set.IsTable dag prev tbl) := by
  have hlt := driverSelectNodes_lt hdag hselect
  obtain ⟨set, hset, hexact⟩ := prepareSelected_exact hsort hdag hprev hlt
  refine ⟨set, ?_, hexact, fun hqueue hcount => hexact.exists_table hdag hqueue hprev hlt hcount⟩
  rw [driverPrepareNodes, hselect]
  exact hset

def sortByPass (nodes : List LocalNode) : List LocalNode := nodes.insertionSort fun l r => l.passIndex ≤ r.passIndex

theorem sortsByPass_insertionSort : SortsByPass sortByPass where
  perm nodes := List.perm_insertionSort _ nodes
  sorted nodes := by
    have htotal : Std.Total fun l r : LocalNode => l.passIndex ≤ r.passIndex := ⟨fun l r => UInt16.le_total _ _⟩
    have htrans : IsTrans LocalNode fun l r => l.passIndex ≤ r.passIndex :=
      ⟨fun l m r hlm hmr => UInt16.le_trans hlm hmr⟩
    exact List.pairwise_insertionSort _ nodes

theorem three_lt_int : 3 < 2 ^ 31 := by decide

/-- Two nodes that depend on each other, in different passes, and one that nothing needs. -/
def cyclicDag : DriverDag where
  nodeGuids := [⟨1, 0⟩, ⟨2, 0⟩, ⟨3, 0⟩]
  nodeData := [{ NodeData.empty with passIndex := 1, dependencies := [1] },
    { NodeData.empty with dependencies := [0] }, NodeData.empty]
  nodeGuids_length := rfl
  nodeCount_int := three_lt_int
  passes := [.lit "Tundra", .lit "Build"]
  configNameHashes := [djb2Hash (.lit "linux-gcc")]
  variantNameHashes := [djb2Hash (.lit "debug")]
  subVariantNameHashes := [djb2Hash (.lit "default")]
  buildTuples := [⟨0, 0, 0, [0], [], [⟨.lit "tool", 0⟩]⟩]
  defaultConfigIndex := 0
  defaultVariantIndex := 0
  defaultSubVariantIndex := 0

theorem cyclicDag_wellFormed : cyclicDag.WellFormed where
  dependencies := by decide
  passIndex := by decide
  passes := by decide
  defaultNodes := by decide
  alwaysNodes := by decide
  namedNodes := by decide

theorem driverPrepareNodes_exact_cyclic : ∃ set, driverPrepareNodes sortByPass (.lit "/home") cyclicDag none
    [.lit "linux-gcc-debug"] = some set ∧
    set.Exact cyclicDag.toDagData none [0] ∧ set.nodes.map LocalNode.mmapData = [1, 0] := by
  have hselect : driverSelectNodes (.lit "/home") cyclicDag [.lit "linux-gcc-debug"] = some [0] := by decide +kernel
  obtain ⟨set, hset, hexact, -⟩ :=
    driverPrepareNodes_exact sortsByPass_insertionSort cyclicDag_wellFormed ascending_none hselect
  have hnodes : driverPrepareNodes sortByPass (.lit "/home") cyclicDag none [.lit "linux-gcc-debug"] =
      some ⟨[⟨1, 0, none⟩, ⟨0, 1, none⟩], [1, 0, -1], 1 :: 1 :: List.replicate 62 0⟩ := by
    decide +kernel
  refine ⟨set, hset, hexact, ?_⟩
  rw [hset] at hnodes
  rw [Option.some.inj hnodes]
  rfl

end Tundra
