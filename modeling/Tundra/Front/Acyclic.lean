import Tundra.Front.Passes
import Tundra.DagGenerator.Compile
import Mathlib.Logic.Relation

/-!
# Cycles

The dependencies of the DAG that comes out of a saved document are those of the nodes of the build file,
explicit ones and the ones that `setup_input_deps` adds. Explicit ones lead to nodes that were made before. A
producer may have been made later, or be the node itself, and nothing looks for cycles.
-/

namespace Tundra

open Relation (TransGen)

/-- A node of the DAG in a file depends on another one. -/
def FrozenDag.Depends (dag : FrozenDag) (a b : Nat) :
    Prop := ∃ node, dag.nodes[a]? = some node ∧ ∃ index ∈ node.dependencies, index.toInt = b

/-- No node depends on itself, be it through others. -/
def Acyclic {α : Type} (r : α → α → Prop) : Prop := ∀ a, ¬TransGen r a a

theorem Acyclic.of_map {α β : Type} {r : α → α → Prop} {s : β → β → Prop} (f : α → β)
    (h : ∀ a b, r a b → s (f a) (f b)) (hs : Acyclic s) :
    Acyclic r := by
  intro a ha
  exact hs (f a) (TransGen.lift f h a a ha)

namespace Front

/-- A node of the build file depends on another one. -/
def Depends (host : Host) (nodes : List Node) (n d : Nat) :
    Prop := ∃ node, nodes[n]? = some node ∧ DependsOn host nodes node d

/-- Every file that a node reads, and another one or itself writes, is written by a node that was made before. -/
def ProducersBefore (host : Host) (nodes : List Node) : Prop :=
  ∀ (n : Nat) (node : Node), nodes[n]? = some node → ∀ (d : Nat) (dep : Node), nodes[d]? = some dep →
    (∃ input ∈ node.inputs, ∃ output ∈ dep.outputs, host.fileKey input = host.fileKey output) → d < n

variable {host : Host} {nodes : List Node}

theorem depends_lt (hnodes : AllNodes nodes) (hbefore : ProducersBefore host nodes) {n d : Nat}
    (h : Depends host nodes n d) : d < n := by
  obtain ⟨node, hn, hdep | ⟨dep, hd, hfile⟩⟩ := h
  · exact hnodes.deps_lt hn hdep
  · exact hbefore n node hn d dep hd hfile

theorem acyclic_of_producersBefore (hnodes : AllNodes nodes) (hbefore : ProducersBefore host nodes) :
    Acyclic (Depends host nodes) := by
  have hdown : ∀ a b, TransGen (Depends host nodes) a b → b < a := fun a b h => by
    induction h with
    | single h => exact depends_lt hnodes hbefore h
    | tail _ h ih => exact (depends_lt hnodes hbefore h).trans ih
  exact fun a h => lt_irrefl a (hdown a a h)

/-! ### The saved document -/

section Saved

variable (passToIndex : List PassRef) (scannerToIndex : List Nat) (node : Node)

def savedMembers : JsonObject := ((saveNode passToIndex scannerToIndex node).asObject).getD []

theorem asObject_saveNode :
    (saveNode passToIndex scannerToIndex node).asObject = some (savedMembers passToIndex scannerToIndex node) := rfl

theorem find_savedMembers (key : String) :
    (savedMembers passToIndex scannerToIndex node).find (.lit key) = nodeMember
    (saveNode passToIndex scannerToIndex node) key := by
  rw [nodeMember, asObject_saveNode, Option.bind_some]

theorem action_saveNode : findStringValue
    (savedMembers passToIndex scannerToIndex node) "Action" = some node.action := by
  obtain ⟨hmember, -⟩ := nodeMember_saveNode passToIndex scannerToIndex node
  rw [findStringValue, find_savedMembers, hmember]
  rfl

theorem find_passIndex_saveNode :
    (savedMembers passToIndex scannerToIndex node).find (.lit "PassIndex") = some
    (.number (passToIndex.idxOf node.pass)) := by
  obtain ⟨-, hmember, -⟩ := nodeMember_saveNode passToIndex scannerToIndex node
  rw [find_savedMembers, hmember]

theorem passIndex_saveNode : findIntValue (savedMembers passToIndex scannerToIndex node) "PassIndex" 0 =
    (doubleToInt64 (passToIndex.idxOf node.pass)).toInt32 := by
  rw [findIntValue, find_passIndex_saveNode]
  rw [Option.bind_some, JsonValue.asNumber, Option.map_some, Option.getD_some]

/-- A list that is only written if there is something in it is read back. -/
theorem arrayOf_saveNode {α : Type} {key : String} {list : List α} {write : α → JsonValue}
    (hmember : nodeMember (saveNode passToIndex scannerToIndex node) key = if list ≠ [] then
    some (.array (list.map write)) else none) :
    arrayOf (savedMembers passToIndex scannerToIndex node) key = list.map write := by
  rw [arrayOf, findArrayValue, find_savedMembers, hmember]
  split_ifs with hlist
  · rfl
  · rw [not_not.mp hlist]
    rfl

theorem deps_saveNode : arrayOf
    (savedMembers passToIndex scannerToIndex node) "Deps" = node.deps.map fun d : Nat => JsonValue.number d :=
  arrayOf_saveNode _ _ _ (nodeMember_saveNode passToIndex scannerToIndex node).2.2.1

theorem inputs_saveNode : arrayOf (savedMembers passToIndex scannerToIndex node) "Inputs" = node.inputs.map .string :=
  arrayOf_saveNode _ _ _ (nodeMember_saveNode passToIndex scannerToIndex node).2.2.2.1

theorem outputs_saveNode :
    arrayOf (savedMembers passToIndex scannerToIndex node) "Outputs" = node.outputs.map .string :=
  arrayOf_saveNode _ _ _ (nodeMember_saveNode passToIndex scannerToIndex node).2.2.2.2.1

theorem auxOutputs_saveNode :
    arrayOf (savedMembers passToIndex scannerToIndex node) "AuxOutputs" = node.auxOutputs.map .string :=
  arrayOf_saveNode _ _ _ (nodeMember_saveNode passToIndex scannerToIndex node).2.2.2.2.2

end Saved

theorem toInt_passIndex {k : Nat} (h : k < 2 ^ 31) : ((doubleToInt64 k).toInt32).toInt = k := by
  have htruncated : (k : Rat).num.tdiv (k : Rat).den = k := by simp
  have hint : (doubleToInt64 k).toInt = k := by
    rw [doubleToInt64, htruncated, if_pos (by omega)]
    exact Int64.toInt_ofInt_of_le (by omega) (by omega)
  rw [Int64.toInt_toInt32, hint, Int.bmod_eq_of_le (by omega) (by omega)]

theorem nodeIndex_number {k : Nat} (h : k < 2 ^ 31) : nodeIndex (.number k) = k := by
  have htruncated : (k : Rat).num.tdiv (k : Rat).den = k := by simp
  have hint : (doubleToInt32 k).toInt = k := by
    rw [doubleToInt32, htruncated, if_pos (by omega)]
    exact Int32.toInt_ofInt_of_le (by omega) (by omega)
  rw [nodeIndex, JsonValue.asNumber, Option.map_some, Option.getD_some, hint, Int.toNat_natCast]

section Document

variable {passes : Nat → Pass} {args : SaveArgs} {passToIndex : List PassRef} {setup : JsonValue}

theorem nodes_writeDocument : arrayOf (writeDocument passes args passToIndex setup nodes) "Nodes" =
    nodes.map (saveNode passToIndex (getScanners nodes)) := docNodes_writeDocument passes args passToIndex setup nodes

theorem passes_writeDocument :
    (arrayOf (writeDocument passes args passToIndex setup nodes) "Passes").length = passToIndex.length := by
  simp (disch := decide) [arrayOf, findArrayValue, writeDocument, lit_inj, savePasses, strings, JsonValue.asArray]

theorem globs_writeDocument : ∀ value ∈ arrayOf (writeDocument passes args passToIndex setup nodes) "GlobSignatures",
    value.asObject ≠ none := by
  simp (disch := decide) [arrayOf, findArrayValue, writeDocument, lit_inj, JsonValue.asArray, JsonValue.asObject]

end Document

theorem length_uniq_le {α : Type} [DecidableEq α] (array : List α) : (uniq array).length ≤ array.length :=
  ((nodup_uniq array).subperm fun _ hx => mem_uniq.mp hx).length_le

theorem saved_sane {passes : Nat → Pass} {table : TableSort passes} {args : SaveArgs} {doc : JsonObject}
    {env : DagEnv} {segs : Segments} {image : List UInt8} (hsaved : saveDagData table host args nodes = some doc)
    (hcompile : compileDag env doc = .ok segs) (hflush : segs.flush 6 = some image) :
    SaneDocument doc ∧ nodes.length < 2 ^ 31 := by
  obtain ⟨nodes', setup, hnodes', -, -, rfl⟩ := saveDagData_eq_some.mp hsaved
  obtain ⟨hlength, hspec⟩ := setupInputDeps_spec hnodes'
  obtain ⟨fields, hread, rfl⟩ := compileDag_eq_ok hcompile
  obtain ⟨hnode, hcount, hpasses, hguids, hnames, hglobs⟩ := fields_of_readDag hread
  rw [nodes_writeDocument] at hnode
  rw [nodes_writeDocument, List.length_map, hlength] at hguids
  rw [passes_writeDocument] at hpasses
  have hwhole : fields.Complete := by
    refine ⟨fun node hmem => ?_, hcount, hglobs globs_writeDocument, hnames⟩
    obtain ⟨value, hvalue, obj, hobj, -, -, hcomplete⟩ := hnode node hmem
    obtain ⟨saved, -, rfl⟩ := List.mem_map.mp hvalue
    obtain rfl := Option.some.inj ((asObject_saveNode _ _ saved).symm.trans hobj)
    refine hcomplete fun key hkey file hfile => ?_
    simp only [List.mem_cons, List.not_mem_nil, or_false] at hkey
    rcases hkey with rfl | rfl | rfl
    · rw [inputs_saveNode] at hfile
      obtain ⟨s, -, rfl⟩ := List.mem_map.mp hfile
      exact Option.some_ne_none s
    · rw [outputs_saveNode] at hfile
      obtain ⟨s, -, rfl⟩ := List.mem_map.mp hfile
      exact Option.some_ne_none s
    · rw [auxOutputs_saveNode] at hfile
      obtain ⟨s, -, rfl⟩ := List.mem_map.mp hfile
      exact Option.some_ne_none s
  have hbound : nodes.length < 2 ^ 31 := by
    have hlt := nodeGuids_length_lt (loadDagData_flush hwhole hflush)
    rwa [frozenDag, List.length_map, hguids] at hlt
  refine ⟨saneDocument_of_readDag hread hwhole fun node hmem => ?_, hbound⟩
  obtain ⟨value, hvalue, obj, hobj, haction, hpass, -⟩ := hnode node hmem
  obtain ⟨saved, hsavedNode, rfl⟩ := List.mem_map.mp hvalue
  obtain rfl := Option.some.inj ((asObject_saveNode _ _ saved).symm.trans hobj)
  obtain ⟨n, hn⟩ := List.mem_iff_getElem?.mp hsavedNode
  have hlt : n < nodes.length := hlength ▸ (List.getElem?_eq_some_iff.mp hn).1
  obtain ⟨node', hn', hpass', -⟩ := hspec n _ (List.getElem?_eq_getElem hlt)
  obtain rfl := Option.some.inj (hn.symm.trans hn')
  have hidx : (getPasses table nodes).idxOf saved.pass < (getPasses table nodes).length :=
    List.idxOf_lt_length_of_mem ((mem_getPasses table).mpr ⟨_, List.getElem_mem hlt, hpass'.symm⟩)
  have hfew : (getPasses table nodes).length ≤ nodes.length := by
    rw [getPasses, (table.perm _).length_eq]
    exact (length_uniq_le _).trans (List.length_map _).le
  rw [haction, action_saveNode, hpass, passIndex_saveNode, hpasses, InRange, toInt_passIndex (by omega)]
  exact ⟨Option.some_ne_none _, by omega, by omega⟩

/-- The file of a saved document that is accepted says what the document says. -/
theorem saved_encodes {passes : Nat → Pass} {table : TableSort passes} {args : SaveArgs} {doc : JsonObject}
    {env : DagEnv} {segs : Segments} {image : List UInt8} (hsaved : saveDagData table host args nodes = some doc)
    (hcompile : compileDag env doc = .ok segs) (hflush : segs.flush 6 = some image) :
    ∃ dag π, loadDagData image = some dag ∧ EncodesDag env doc π dag ∧ nodes.length < 2 ^ 31 := by
  obtain ⟨hsane, hbound⟩ := saved_sane hsaved hcompile hflush
  obtain ⟨fields, hread, rfl⟩ := compileDag_eq_ok hcompile
  obtain ⟨hload, hencodes⟩ := loadDagData_encodes env hsane hread hflush
  exact ⟨_, _, hload, hencodes, hbound⟩

/-- The dependencies in the file are those of the build file, at their new places. -/
theorem frozen_depends_iff (hnodes : AllNodes nodes) {passes : Nat → Pass} {table : TableSort passes}
    {args : SaveArgs} {doc : JsonObject} (hsaved : saveDagData table host args nodes = some doc) {env : DagEnv}
    {π : Nat → Nat} {dag : FrozenDag} (hdag : EncodesDag env doc π dag) (hbound : nodes.length < 2 ^ 31) {n : Nat}
    (hn : n < nodes.length) {b : Nat} :
    dag.Depends (π n) b ↔ ∃ d, Depends host nodes n d ∧ π d = b := by
  obtain ⟨nodes', setup, hnodes', -, -, rfl⟩ := saveDagData_eq_some.mp hsaved
  obtain ⟨hlength, hspec⟩ := setupInputDeps_spec hnodes'
  have hget := List.getElem?_eq_getElem hn
  obtain ⟨node', hn', -, hdeps⟩ := hspec n _ hget
  have hvalue : (arrayOf (writeDocument passes args (getPasses table nodes) setup nodes') "Nodes")[n]? =
      some (saveNode (getPasses table nodes) (getScanners nodes') node') := by
    rw [nodes_writeDocument, List.getElem?_map, hn', Option.map_some]
  obtain ⟨obj, frozen, hobj, hfrozen, -, hencodes⟩ := hdag.nodes n _ hvalue
  obtain rfl := Option.some.inj ((asObject_saveNode _ _ node').symm.trans hobj)
  have hsmall : ∀ d ∈ node'.deps, d < 2 ^ 31 := fun d hd => by
    obtain ⟨dep, hdep⟩ := exists_of_dependsOn hnodes hget ((hdeps d).mp hd)
    have hlt := (List.getElem?_eq_some_iff.mp hdep).1
    omega
  have hindices : frozen.dependencies.map Int32.toInt = node'.deps.map fun d => (π d : Int) := by
    rw [hencodes.dependencies.2, deps_saveNode, moved, List.map_map, List.map_map]
    exact List.map_congr_left fun d hd => congrArg (fun i : Nat => (π i : Int)) (nodeIndex_number (hsmall d hd))
  have hmem : (∃ index ∈ frozen.dependencies, index.toInt = b) ↔ ∃ d ∈ node'.deps, π d = b := by
    rw [← List.mem_map, hindices, List.mem_map]
    simp only [Nat.cast_inj]
  constructor
  · rintro ⟨node, hnode, hindex⟩
    obtain rfl := Option.some.inj (hfrozen.symm.trans hnode)
    obtain ⟨d, hd, hb⟩ := hmem.mp hindex
    exact ⟨d, ⟨_, hget, (hdeps d).mp hd⟩, hb⟩
  · rintro ⟨d, ⟨node, hnode, hdep⟩, hb⟩
    obtain rfl := Option.some.inj (hget.symm.trans hnode)
    exact ⟨frozen, hfrozen, hmem.mpr ⟨d, (hdeps d).mpr hdep, hb⟩⟩

theorem depends_range (hnodes : AllNodes nodes) {n d : Nat} (h : Depends host nodes n d) :
    n < nodes.length ∧ d < nodes.length := by
  obtain ⟨node, hn, hdep⟩ := h
  obtain ⟨dep, hd⟩ := exists_of_dependsOn hnodes hn hdep
  exact ⟨(List.getElem?_eq_some_iff.mp hn).1, (List.getElem?_eq_some_iff.mp hd).1⟩

/-- The DAG in the file has a cycle exactly if the dependencies of the build file have one. -/
theorem frozen_acyclic_iff (hnodes : AllNodes nodes) {passes : Nat → Pass} {table : TableSort passes}
    {args : SaveArgs} {doc : JsonObject} (hsaved : saveDagData table host args nodes = some doc) {env : DagEnv}
    {π : Nat → Nat} {dag : FrozenDag} (hdag : EncodesDag env doc π dag) (hbound : nodes.length < 2 ^ 31) :
    Acyclic dag.Depends ↔ Acyclic (Depends host nodes) := by
  have hcount : (arrayOf doc "Nodes").length = nodes.length := by
    obtain ⟨nodes', setup, hnodes', -, -, rfl⟩ := saveDagData_eq_some.mp hsaved
    rw [nodes_writeDocument, List.length_map, (setupInputDeps_spec hnodes').1]
  have hperm := hdag.permutation
  rw [hcount] at hperm
  constructor
  · refine Acyclic.of_map π fun n d h => ?_
    exact (frozen_depends_iff hnodes hsaved hdag hbound (depends_range hnodes h).1).mpr ⟨d, h, rfl⟩
  · refine Acyclic.of_map (Function.invFunOn π (Set.Iio nodes.length)) fun a b h => ?_
    have ha : a < nodes.length := by
      obtain ⟨node, hnode, -⟩ := h
      exact hcount ▸ hdag.nodes_length ▸ (List.getElem?_eq_some_iff.mp hnode).1
    obtain ⟨n, hn, rfl⟩ := hperm.surjOn ha
    obtain ⟨d, hdep, rfl⟩ := (frozen_depends_iff hnodes hsaved hdag hbound hn).mp h
    rw [hperm.injOn.leftInvOn_invFunOn hn, hperm.injOn.leftInvOn_invFunOn (depends_range hnodes hdep).2]
    exact hdep

/-- What is saved and compiled has no cycle if no file is read by a node that was made before its producer, or
by the producer. -/
theorem saved_acyclic (hnodes : AllNodes nodes) {passes : Nat → Pass} {table : TableSort passes} {args : SaveArgs}
    {doc : JsonObject} (hsaved : saveDagData table host args nodes = some doc) {env : DagEnv} {segs : Segments}
    (hcompile : compileDag env doc = .ok segs) {image : List UInt8} (hflush : segs.flush 6 = some image) :
    ∃ dag, loadDagData image = some dag ∧ (Acyclic dag.Depends ↔ Acyclic (Depends host nodes)) ∧
      (ProducersBefore host nodes → Acyclic dag.Depends) := by
  obtain ⟨dag, π, hload, hdag, hbound⟩ := saved_encodes hsaved hcompile hflush
  have hiff := frozen_acyclic_iff hnodes hsaved hdag hbound
  exact ⟨dag, hload, hiff, fun hbefore => hiff.mpr (acyclic_of_producersBefore hnodes hbefore)⟩

/-! ### Two nodes that write files -/

/-- A node that reads one file and writes another. -/
def NodeDecl.file (label input output : String) : NodeDecl :=
  ⟨none, none, [], [.lit input], [], [.lit output], [], false, false, none, [], some (.lit "run"), none,
    some (.lit label)⟩

/-- A node that makes `m` from `x`, and one that makes `y` from `m`. -/
def chainNodes : List Node := [.file "a" "x" "m", .file "b" "m" "y"].filterMap makeNode

/-- A node that makes `y` from `x`, and one that makes `x` from `y`. -/
def loopNodes : List Node := [.file "a" "x" "y", .file "b" "y" "x"].filterMap makeNode

theorem allNodes_file (a b : NodeDecl) (ha : a.dependencies = []) (hb : b.dependencies = [])
    (ha' : a.action.isNone = false) (hb' : b.action.isNone = false) : AllNodes ([a, b].filterMap makeNode) := by
  obtain ⟨a', hmakeA⟩ : ∃ node, makeNode a = some node := by simp [makeNode, ha']
  obtain ⟨b', hmakeB⟩ : ∃ node, makeNode b = some node := by simp [makeNode, hb']
  rw [List.filterMap_cons_some hmakeA, List.filterMap_cons_some hmakeB]
  have hone : AllNodes ([] ++ [a']) := .make .nil (by simp [ha]) hmakeA
  exact .make hone (by simp [hb]) hmakeB

/-- The image that comes out of these nodes. -/
def compiledImage (nodes : List Node) : Option (List UInt8) := do
  let doc ← saveDagData (.first (fun _ => defaultPass) .default) .unix .plain nodes
  let segs ← (compileDag emptyEnv doc).toOption
  segs.flush 6

theorem compiledImage_eq_some {image : List UInt8} (h : compiledImage nodes = some image) :
    ∃ doc segs, saveDagData (.first (fun _ => defaultPass) .default) .unix .plain nodes = some doc ∧
    compileDag emptyEnv doc = .ok segs ∧
      segs.flush 6 = some image := by
  obtain ⟨doc, hdoc, h⟩ := Option.bind_eq_some_iff.mp h
  obtain ⟨segs, hsegs, h⟩ := Option.bind_eq_some_iff.mp h
  exact ⟨doc, segs, hdoc, Checked.toOption_eq_some.mp hsegs, h⟩

theorem compiledImage_isSome : (compiledImage chainNodes).isSome = true ∧ (compiledImage loopNodes).isSome = true := by
  decide +kernel

theorem producersBefore_chainNodes : ProducersBefore .unix chainNodes := by
  have hall : ∀ p ∈ chainNodes.zipIdx, ∀ q ∈ chainNodes.zipIdx,
      (∃ input ∈ p.1.inputs, ∃ output ∈ q.1.outputs, Host.unix.fileKey input = Host.unix.fileKey output) →
        q.2 < p.2 := by decide +kernel
  intro n node hn d dep hd hfile
  exact hall (node, n) (List.mk_mem_zipIdx_iff_getElem?.mpr hn) (dep, d) (List.mk_mem_zipIdx_iff_getElem?.mpr hd) hfile

theorem saved_acyclic_chain :
    AllNodes chainNodes ∧ ∃ image dag, compiledImage chainNodes = some image ∧ loadDagData image = some dag ∧
    Acyclic dag.Depends := by
  have hnodes : AllNodes chainNodes := allNodes_file _ _ rfl rfl rfl rfl
  obtain ⟨image, himage⟩ := Option.isSome_iff_exists.mp compiledImage_isSome.1
  obtain ⟨doc, segs, hsaved, hcompile, hflush⟩ := compiledImage_eq_some himage
  obtain ⟨dag, hload, -, hacyclic⟩ := saved_acyclic hnodes hsaved hcompile hflush
  exact ⟨hnodes, image, dag, himage, hload, hacyclic producersBefore_chainNodes⟩

theorem cycle_loopNodes : ¬Acyclic (Depends .unix loopNodes) := by
  have hfiles : ∀ n d : Fin 2, n ≠ d → ∃ p ∈ loopNodes.zipIdx, p.2 = n ∧ ∃ q ∈ loopNodes.zipIdx, q.2 = d ∧
      ∃ input ∈ p.1.inputs, ∃ output ∈ q.1.outputs, Host.unix.fileKey input = Host.unix.fileKey output := by
        decide +kernel
  have hdepends : ∀ n d : Fin 2, n ≠ d → Depends .unix loopNodes n d := fun n d hne => by
    obtain ⟨⟨node, n'⟩, hn, rfl, ⟨dep, d'⟩, hd, rfl, hfile⟩ := hfiles n d hne
    exact ⟨node, List.mk_mem_zipIdx_iff_getElem?.mp hn, .inr ⟨dep, List.mk_mem_zipIdx_iff_getElem?.mp hd, hfile⟩⟩
  intro hacyclic
  exact hacyclic _ (.tail (.single (hdepends 0 1 (by decide))) (hdepends 1 0 (by decide)))

/-- Two nodes that write each other's input are saved and compiled, and depend on each other. -/
theorem saved_cycle :
    AllNodes loopNodes ∧ ∃ image dag, compiledImage loopNodes = some image ∧ loadDagData image = some dag ∧
    ¬Acyclic dag.Depends := by
  have hnodes : AllNodes loopNodes := allNodes_file _ _ rfl rfl rfl rfl
  obtain ⟨image, himage⟩ := Option.isSome_iff_exists.mp compiledImage_isSome.2
  obtain ⟨doc, segs, hsaved, hcompile, hflush⟩ := compiledImage_eq_some himage
  obtain ⟨dag, π, hload, hdag, hbound⟩ := saved_encodes hsaved hcompile hflush
  refine ⟨hnodes, image, dag, himage, hload, fun hacyclic => cycle_loopNodes ?_⟩
  exact (frozen_acyclic_iff hnodes hsaved hdag hbound).mp hacyclic

end Front

end Tundra
