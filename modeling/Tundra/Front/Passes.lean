import Tundra.Front.Producers
import Mathlib.Data.Prod.Lex

/-!
# Passes of a saved DAG

The front end checks the build orders along every dependency; the document numbers the passes densely, in the
order a sort by build order leaves them in. The two agree on a dependency unless it joins two passes with the
same build order: `check_deps` lets it through, and the sort may put the pass of the dependency behind the other
one.
-/

namespace Tundra.Front

def docNodes (doc : JsonObject) : List JsonValue := ((doc.find (.lit "Nodes")).bind JsonValue.asArray).getD []

def nodeMember (node : JsonValue) (name : String) :
    Option JsonValue := node.asObject.bind fun members => JsonObject.find members (.lit name)

/-- `PassIndex` of a node of a document. -/
def docPassIndex (node : JsonValue) : Rat := ((nodeMember node "PassIndex").bind JsonValue.asNumber).getD 0

/-- `Deps` of a node of a document. -/
def docDeps (node : JsonValue) : List Rat :=
    (((nodeMember node "Deps").bind JsonValue.asArray).getD []).filterMap JsonValue.asNumber

/-- No dependency has a higher pass index than the node that depends on it. -/
def PassMonotone (doc : JsonObject) : Prop :=
  ∀ node ∈ docNodes doc, ∀ d ∈ docDeps node, ∀ (k : Nat) (dep : JsonValue), d = k → (docNodes doc)[k]? = some dep →
    docPassIndex dep ≤ docPassIndex node

variable {host : Host} {nodes : List Node}

/-! ### The document -/

@[simp] theorem find_member (name : String) (value : JsonValue) (rest : JsonObject) (key : CString) :
    JsonObject.find (member name value :: rest) key = if .lit name = key then some value else rest.find key :=
  JsonObject.find_cons ..

@[simp] theorem find_nonEmpty {α : Type} (name : String) (list : List α) (value : JsonValue) (key : CString) :
    JsonObject.find (nonEmpty name list value) key = if list ≠ [] ∧ .lit name = key then some value else none := by
  by_cases h : list = [] <;> simp [nonEmpty, h]

@[simp] theorem find_ifSet (name : String) (flag : Bool) (key : CString) :
    JsonObject.find (ifSet name flag) key = if flag = true ∧ .lit name = key then some (.boolean true) else none := by
  by_cases h : flag <;> simp [ifSet, h]

@[simp] theorem find_toList {α : Type} (name : String) (f : α → JsonValue) (x : Option α) (key : CString) :
    JsonObject.find (x.toList.map fun a => member name (f a)) key = x.bind fun a => if .lit name = key then some
    (f a) else none := by
  cases x <;> simp

theorem nodeNames_apart : (["Action", "PreAction", "Annotation", "PassIndex", "Deps", "Inputs", "Outputs",
    "AuxOutputs", "Env", "ScannerIndex",
    "OverwriteOutputs", "PreciousOutputs", "Expensive"].map CString.lit).Pairwise fun s t => ¬s = t ∧ ¬t = s := by
  decide +kernel

/-- What a saved node has under the names that matter for the order of the nodes. -/
theorem nodeMember_saveNode (passToIndex : List PassRef) (scannerToIndex : List Nat) (node : Node) :
    nodeMember (saveNode passToIndex scannerToIndex node) "Action" = some (.string node.action) ∧
    nodeMember (saveNode passToIndex scannerToIndex node) "PassIndex" = some (.number (passToIndex.idxOf node.pass)) ∧
    nodeMember (saveNode passToIndex scannerToIndex node) "Deps" =
    (if node.deps ≠ [] then some (indices node.deps) else none) ∧
    nodeMember (saveNode passToIndex scannerToIndex node) "Inputs" =
    (if node.inputs ≠ [] then some (strings node.inputs) else none) ∧
    nodeMember (saveNode passToIndex scannerToIndex node) "Outputs" =
    (if node.outputs ≠ [] then some (strings node.outputs) else none) ∧
    nodeMember (saveNode passToIndex scannerToIndex node) "AuxOutputs" =
    (if node.auxOutputs ≠ [] then some (strings node.auxOutputs) else none) := by
  have hapart := nodeNames_apart
  simp only [List.map_cons, List.map_nil, List.pairwise_cons, List.forall_mem_cons] at hapart
  simp only [nodeMember, saveNode, JsonValue.asObject, Option.bind_some, JsonObject.find_append, find_nonEmpty,
    find_ifSet, find_toList, find_member,
    JsonObject.find_nil]
  simp [hapart]

theorem docPassIndex_saveNode (passToIndex : List PassRef) (scannerToIndex : List Nat) (node : Node) :
    docPassIndex (saveNode passToIndex scannerToIndex node) = passToIndex.idxOf node.pass := by
  obtain ⟨-, hmember, -⟩ := nodeMember_saveNode passToIndex scannerToIndex node
  rw [docPassIndex, hmember]
  rfl

theorem docDeps_saveNode (passToIndex : List PassRef) (scannerToIndex : List Nat) (node : Node) :
    docDeps (saveNode passToIndex scannerToIndex node) = node.deps.map fun d : Nat => (d : Rat) := by
  obtain ⟨-, -, hmember, -⟩ := nodeMember_saveNode passToIndex scannerToIndex node
  rw [docDeps, hmember]
  split_ifs with hdeps
  · simp [indices, JsonValue.asArray, List.filterMap_map, Function.comp_def, JsonValue.asNumber]
  · simp [not_not.mp hdeps]

/-- When a document is saved, and what is in it. -/
theorem saveDagData_eq_some {passes : Nat → Pass} {table : TableSort passes} {args : SaveArgs} {doc : JsonObject} :
    saveDagData table host args nodes = some doc ↔ ∃ nodes' setup, setupInputDeps host nodes = .ok nodes' ∧
      saveConfigs host args = some setup ∧ checkDeps passes nodes' = true ∧
      writeDocument passes args (getPasses table nodes) setup nodes' = doc := by
  simp only [saveDagData, Option.bind_eq_bind, Option.bind_eq_some_iff, Option.ite_none_right_eq_some,
    Option.some.injEq,
    Checked.toOption_eq_some]
  constructor
  · rintro ⟨nodes', hnodes', setup, hsetup, hcheck, hdoc⟩
    exact ⟨nodes', setup, hnodes', hsetup, hcheck, hdoc⟩
  · rintro ⟨nodes', setup, hnodes', hsetup, hcheck, hdoc⟩
    exact ⟨nodes', hnodes', setup, hsetup, hcheck, hdoc⟩

theorem docNodes_writeDocument (passes : Nat → Pass) (args : SaveArgs) (passToIndex : List PassRef)
    (setup : JsonValue) (nodes : List Node) :
    docNodes (writeDocument passes args passToIndex setup nodes) = nodes.map
    (saveNode passToIndex (getScanners nodes)) := by
  simp (disch := decide) [docNodes, writeDocument, lit_inj, saveNodes, JsonValue.asArray]

/-! ### The order of the passes -/

/-- An element that must not stand behind another one stands before it. -/
theorem idxOf_lt_of_pairwise {α : Type} [DecidableEq α] {l : List α} {r : α → α → Prop} {a b : α}
    (hl : l.Pairwise r) (ha : a ∈ l) (hb : b ∈ l) (hne : a ≠ b) (h : ¬ r b a) : l.idxOf a < l.idxOf b := by
  by_contra hge
  have hlt : l.idxOf b < l.idxOf a := by
    have : l.idxOf a ≠ l.idxOf b := fun heq => hne ((List.idxOf_inj ha).mp heq)
    omega
  have hrel := List.pairwise_iff_getElem.mp hl _ _ (List.idxOf_lt_length_of_mem hb) (List.idxOf_lt_length_of_mem ha) hlt
  rw [List.getElem_idxOf, List.getElem_idxOf] at hrel
  exact h hrel

/-- The build order of a pass, with one pass before the others of the same build order. -/
def firstKey (passes : Nat → Pass) (ref a : PassRef) :
    Lex (Rat × Nat) := toLex ((a.get passes).buildOrder, if a = ref then 0 else 1)

/-- A sort that puts one pass before the others of the same build order. -/
def TableSort.first (passes : Nat → Pass) (ref : PassRef) : TableSort passes where
  sort refs := refs.insertionSort fun a b => firstKey passes ref a ≤ firstKey passes ref b
  perm refs := List.perm_insertionSort _ refs
  sorted refs := by
    have htotal : Std.Total fun a b => firstKey passes ref a ≤ firstKey passes ref b := ⟨fun a b => le_total _ _⟩
    have htrans : IsTrans PassRef fun a b => firstKey passes ref a ≤ firstKey passes ref b := ⟨fun a b c => le_trans⟩
    refine (List.pairwise_insertionSort _ refs).imp fun {a b} hab hlt => ?_
    rcases Prod.Lex.le_iff.mp hab with h | ⟨h, -⟩
    · exact absurd (h.trans hlt) (lt_irrefl _)
    · exact absurd hlt (not_lt.mpr h.le)

section Monotone

variable {passes : Nat → Pass} {args : SaveArgs}

theorem mem_getPasses (table : TableSort passes) {ref : PassRef} :
    ref ∈ getPasses table nodes ↔ ∃ node ∈ nodes, node.pass = ref := by
  rw [getPasses, (table.perm _).mem_iff, mem_uniq, List.mem_map]

theorem passAt_eq {d : Nat} {dep : Node} (h : nodes[d]? = some dep) : passAt nodes d = dep.pass := by
  rw [passAt, h]
  rfl

theorem exists_of_dependsOn (hnodes : AllNodes nodes) {n : Nat} {node : Node} (hn : nodes[n]? = some node) {d : Nat}
    (h : DependsOn host nodes node d) : ∃ dep, nodes[d]? = some dep := by
  rcases h with hd | ⟨dep, hdep, -⟩
  · have hlt := hnodes.deps_lt hn hd
    obtain ⟨hlen, -⟩ := List.getElem?_eq_some_iff.mp hn
    exact ⟨_, List.getElem?_eq_getElem (hlt.trans hlen)⟩
  · exact ⟨dep, hdep⟩

/-- In the document, the pass indices are in order along every dependency exactly when the sort has put them in
order. -/
theorem passMonotone_iff (hnodes : AllNodes nodes) {table : TableSort passes} {doc : JsonObject}
    (hsaved : saveDagData table host args nodes = some doc) :
    PassMonotone doc ↔ ∀ node ∈ nodes, ∀ d, DependsOn host nodes node d →
      (getPasses table nodes).idxOf (passAt nodes d) ≤ (getPasses table nodes).idxOf node.pass := by
  obtain ⟨nodes', setup, hnodes', -, -, rfl⟩ := saveDagData_eq_some.mp hsaved
  obtain ⟨hlength, hspec⟩ := setupInputDeps_spec hnodes'
  constructor
  · intro hmono node hnode d hdep
    obtain ⟨n, hn⟩ := List.mem_iff_getElem?.mp hnode
    obtain ⟨node', hn', hpass, hdeps⟩ := hspec n node hn
    obtain ⟨dep, hd⟩ := exists_of_dependsOn hnodes hn hdep
    obtain ⟨dep', hd', hpass', -⟩ := hspec d dep hd
    have hle := hmono (saveNode (getPasses table nodes) (getScanners nodes') node')
      (by rw [docNodes_writeDocument]; exact List.mem_map_of_mem (List.mem_of_getElem? hn')) d
      (by rw [docDeps_saveNode]; exact List.mem_map.mpr ⟨d, (hdeps d).mpr hdep, rfl⟩) d _ rfl
      (by rw [docNodes_writeDocument, List.getElem?_map, hd']; rfl)
    rw [docPassIndex_saveNode, docPassIndex_saveNode, hpass, hpass', Nat.cast_le] at hle
    rwa [passAt_eq hd]
  · intro hle jnode hjnode q hq k jdep hk hjdep
    rw [docNodes_writeDocument] at hjnode hjdep
    obtain ⟨node', hnode', rfl⟩ := List.mem_map.mp hjnode
    obtain ⟨n, hn'⟩ := List.mem_iff_getElem?.mp hnode'
    obtain ⟨hlen, -⟩ := List.getElem?_eq_some_iff.mp hn'
    have hn := List.getElem?_eq_getElem (l := nodes) (i := n) (by omega)
    obtain ⟨node'', hn'', hpass, hdeps⟩ := hspec n _ hn
    rw [hn', Option.some.injEq] at hn''
    subst hn''
    rw [docDeps_saveNode] at hq
    obtain ⟨d, hd, rfl⟩ := List.mem_map.mp hq
    obtain rfl : d = k := Nat.cast_injective hk
    rw [List.getElem?_map, Option.map_eq_some_iff] at hjdep
    obtain ⟨dep', hdep', rfl⟩ := hjdep
    obtain ⟨dep, hdep⟩ := exists_of_dependsOn hnodes hn ((hdeps d).mp hd)
    obtain ⟨dep'', hdep'', hpass', -⟩ := hspec d dep hdep
    rw [hdep', Option.some.injEq] at hdep''
    subst hdep''
    have := hle _ (List.mem_of_getElem? hn) d ((hdeps d).mp hd)
    rw [passAt_eq hdep] at this
    rw [docPassIndex_saveNode, docPassIndex_saveNode, hpass, hpass', Nat.cast_le]
    exact this

theorem checkDeps_spec {nodes' : List Node} (hnodes : AllNodes nodes)
    (hnodes' : setupInputDeps host nodes = .ok nodes') (hcheck : checkDeps passes nodes' = true) {node : Node}
    (hnode : node ∈ nodes) {d : Nat} (hdep : DependsOn host nodes node d) :
    ((passAt nodes d).get passes).buildOrder ≤ (node.pass.get passes).buildOrder := by
  obtain ⟨-, hspec⟩ := setupInputDeps_spec hnodes'
  obtain ⟨n, hn⟩ := List.mem_iff_getElem?.mp hnode
  obtain ⟨node', hn', hpass, hdeps⟩ := hspec n node hn
  obtain ⟨dep, hd⟩ := exists_of_dependsOn hnodes hn hdep
  obtain ⟨dep', hd', hpass', -⟩ := hspec d dep hd
  simp only [checkDeps, List.all_eq_true, decide_eq_true_eq, not_lt, gt_iff_lt] at hcheck
  have hle := hcheck node' (List.mem_of_getElem? hn') d ((hdeps d).mpr hdep)
  rwa [passAt_eq hd', hpass, hpass', ← passAt_eq hd] at hle

/-- Of nodes that are saved, every dependency in the document has a pass index that is not higher, however
`table.sort` orders passes that compare equal, exactly when no dependency joins two different passes of the same
build order. -/
theorem saved_passes_monotone (hnodes : AllNodes nodes)
    (hsaved : ∃ (table : TableSort passes) (doc : JsonObject), saveDagData table host args nodes = some doc) :
    (∀ (table : TableSort passes) (doc : JsonObject), saveDagData table host args nodes = some doc → PassMonotone doc) ↔
      ∀ node ∈ nodes, ∀ d, DependsOn host nodes node d → passAt nodes d ≠ node.pass →
        ((passAt nodes d).get passes).buildOrder ≠ (node.pass.get passes).buildOrder := by
  obtain ⟨table₀, doc₀, hsaved₀⟩ := hsaved
  obtain ⟨nodes', setup, hnodes', hsetup, hcheck, -⟩ := saveDagData_eq_some.mp hsaved₀
  have hused : ∀ node ∈ nodes, ∀ d, DependsOn host nodes node d → ∀ table : TableSort passes,
      passAt nodes d ∈ getPasses table nodes ∧ node.pass ∈ getPasses table nodes := by
    intro node hnode d hdep table
    obtain ⟨n, hn⟩ := List.mem_iff_getElem?.mp hnode
    obtain ⟨dep, hd⟩ := exists_of_dependsOn hnodes hn hdep
    rw [passAt_eq hd, mem_getPasses, mem_getPasses]
    exact ⟨⟨dep, List.mem_of_getElem? hd, rfl⟩, node, hnode, rfl⟩
  constructor
  · intro hmono node hnode d hdep hne heq
    -- a sort that puts the pass of the node before the pass of the dependency
    have hsaved : saveDagData (.first passes node.pass) host args nodes =
        some (writeDocument passes args (getPasses (.first passes node.pass) nodes) setup nodes') :=
      saveDagData_eq_some.mpr ⟨nodes', setup, hnodes', hsetup, hcheck, rfl⟩
    have hle := (passMonotone_iff hnodes hsaved).mp (hmono _ _ hsaved) node hnode d hdep
    have hmem := hused node hnode d hdep (.first passes node.pass)
    have htotal : Std.Total fun a b => firstKey passes node.pass a ≤ firstKey passes node.pass b :=
      ⟨fun a b => le_total _ _⟩
    have htrans : IsTrans PassRef fun a b => firstKey passes node.pass a ≤ firstKey passes node.pass b :=
      ⟨fun a b c => le_trans⟩
    have hsorted : (getPasses (.first passes node.pass) nodes).Pairwise
        fun a b => firstKey passes node.pass a ≤ firstKey passes node.pass b := List.pairwise_insertionSort _ _
    have hlt := idxOf_lt_of_pairwise hsorted hmem.2 hmem.1 hne.symm (by simp [firstKey, Prod.Lex.le_iff, heq, hne])
    omega
  · intro hapart table doc hsaved
    rw [passMonotone_iff hnodes hsaved]
    intro node hnode d hdep
    by_cases hsame : passAt nodes d = node.pass
    · rw [hsame]
    · have hle := checkDeps_spec hnodes hnodes' hcheck hnode hdep
      have hlt := lt_of_le_of_ne hle (hapart node hnode d hdep hsame)
      have hmem := hused node hnode d hdep table
      exact (idxOf_lt_of_pairwise (table.sorted _) hmem.1 hmem.2 hsame (not_not.mpr hlt)).le

end Monotone

/-- A node with an action and nothing else. -/
def NodeDecl.plain (label : String) (pass : PassRef) (dependencies : List Nat) : NodeDecl :=
  ⟨some pass, none, dependencies, [], [], [], [], false, false, none, [], some (.lit "run"), none, some (.lit label)⟩

/-- One build tuple with nothing in it. -/
def SaveArgs.plain : SaveArgs :=
  ⟨[⟨.lit "c", none, .lit "v", .lit "s", [], [], []⟩], none, none, [], none, [], [],
    fun _ => ⟨.lit "cpp", [], false, false, false, [], []⟩⟩

def twoPasses (first second : Rat) : Nat → Pass := fun index => ⟨.lit "p", if index = 0 then first else second⟩

/-- A node in the first pass, and one in the second that depends on it. -/
def twoNodes : List Node := [.plain "a" (.declared 0) [], .plain "b" (.declared 1) [0]].filterMap makeNode

theorem allNodes_twoNodes : AllNodes twoNodes := by
  obtain ⟨a, ha⟩ : ∃ a, makeNode (.plain "a" (.declared 0) []) = some a := ⟨_, rfl⟩
  obtain ⟨b, hb⟩ : ∃ b, makeNode (.plain "b" (.declared 1) [0]) = some b := ⟨_, rfl⟩
  have hnodes : twoNodes = [] ++ [a] ++ [b] := by
    rw [twoNodes, List.filterMap_cons_some ha, List.filterMap_cons_some hb]
    rfl
  rw [hnodes]
  exact .make (.make .nil (fun d hd => by cases hd) ha)
    (fun d hd => by rw [List.mem_singleton.mp hd]; exact Nat.zero_lt_one) hb

theorem pass_twoNodes : ∀ node ∈ twoNodes, node.pass = .declared 0 ∨ node.pass = .declared 1 := by
  decide +kernel

theorem saveDagData_twoNodes {first second : Rat} (horder : first ≤ second)
    (table : TableSort (twoPasses first second)) :
    ∃ doc, saveDagData table .unix .plain twoNodes = some doc := by
  obtain ⟨setup, hsetup⟩ : ∃ setup, saveConfigs .unix .plain = some setup :=
    Option.isSome_iff_exists.mp (by decide +kernel)
  refine ⟨_, saveDagData_eq_some.mpr ⟨twoNodes, setup, rfl, hsetup, ?_, rfl⟩⟩
  have hdeps : ∀ node ∈ twoNodes, ∀ d ∈ node.deps, node.pass = .declared 1 ∧ passAt twoNodes d = .declared 0 := by
    decide +kernel
  simp only [checkDeps, List.all_eq_true, decide_eq_true_eq, not_lt, gt_iff_lt]
  intro node hnode d hd
  rw [(hdeps node hnode d hd).1, (hdeps node hnode d hd).2]
  simpa [PassRef.get, twoPasses] using horder

theorem saved_passes_monotone_apart : AllNodes twoNodes ∧ ∀ (table : TableSort (twoPasses 1 2)) (doc : JsonObject),
    saveDagData table .unix .plain twoNodes = some doc → PassMonotone doc := by
  refine ⟨allNodes_twoNodes, ?_⟩
  obtain ⟨doc, hdoc⟩ := saveDagData_twoNodes (by decide +kernel) (.first (twoPasses 1 2) .default)
  refine (saved_passes_monotone allNodes_twoNodes ⟨_, doc, hdoc⟩).mpr fun node hnode d hdep hne heq => ?_
  obtain ⟨n, hn⟩ := List.mem_iff_getElem?.mp hnode
  obtain ⟨dep, hd⟩ := exists_of_dependsOn allNodes_twoNodes hn hdep
  rw [passAt_eq hd] at hne heq
  rcases pass_twoNodes node hnode with h | h <;> rcases pass_twoNodes dep (List.mem_of_getElem? hd) with h' | h' <;>
    simp [h, h', PassRef.get, twoPasses] at hne heq

/-- Two passes of the same build order, and a dependency from the second to the first. The sort may put the
second pass before the first one, and then the dependency has the higher pass index. -/
theorem saved_passes_tied : ∃ (table : TableSort (twoPasses 1 1)) (doc : JsonObject), AllNodes twoNodes ∧
    saveDagData table .unix .plain twoNodes = some doc ∧ ¬ PassMonotone doc := by
  obtain ⟨doc, hdoc⟩ := saveDagData_twoNodes le_rfl (.first (twoPasses 1 1) (.declared 1))
  refine ⟨_, doc, allNodes_twoNodes, hdoc, fun hmono => ?_⟩
  have hedge : ∃ node ∈ twoNodes, 0 ∈ node.deps ∧ node.pass = .declared 1 ∧ passAt twoNodes 0 = .declared 0 := by
    decide +kernel
  obtain ⟨node, hnode, hdep, hpass, hpass'⟩ := hedge
  have hle := (passMonotone_iff allNodes_twoNodes hdoc).mp hmono node hnode 0 (.inl hdep)
  rw [hpass, hpass'] at hle
  exact absurd hle (by decide +kernel)

end Tundra.Front
