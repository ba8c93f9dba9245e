import Tundra.DagGenerator.Encodes

/-!
# Compiling a document

`CompileDag` as a whole: a well-formed document is accepted and the file says what the document says. A document
that is wrong where `CompileDag` does not check it is not turned down.
-/

namespace Tundra

open Bytes DagWriter

theorem length_of_readElems {α : Type} {size count : Nat} {elem : List UInt8 → Nat → Option α} {image : List UInt8}
    {array : Option Nat} {values : List α} (h : readElems size elem image count array = some values) :
    values.length = count := by
  have hlength := (mapM_eq_some_iff.mp h).length_eq
  rw [List.length_range] at hlength
  exact hlength.symm

/-- The number of nodes in a file is an `int32_t`. -/
theorem nodeGuids_length_lt {image : List UInt8} {dag : FrozenDag} (h : loadDagData image = some dag) :
    dag.nodeGuids.length < 2 ^ 31 := by
  rw [loadDagData] at h
  split_ifs at h
  obtain ⟨magicNumber, -, h⟩ := Option.bind_eq_some_iff.mp h
  dsimp only at h
  split_ifs at h
  · cases h
  obtain ⟨⟨nodeGuids, nodes⟩, htables, h⟩ := Option.bind_eq_some_iff.mp h
  have hguids : dag.nodeGuids = nodeGuids := by
    simp only [Option.bind_eq_bind, Option.bind_eq_some_iff] at h
    obtain ⟨_, -, _, -, _, -, _, -, _, -, _, -, _, -, h⟩ := h
    rw [← Option.some.inj h]
  obtain ⟨count, -, htables⟩ := Option.bind_eq_some_iff.mp htables
  obtain ⟨array, -, htables⟩ := Option.bind_eq_some_iff.mp htables
  obtain ⟨array', -, htables⟩ := Option.bind_eq_some_iff.mp htables
  obtain ⟨values, hvalues, htables⟩ := Option.bind_eq_some_iff.mp htables
  obtain ⟨values', -, htables⟩ := Option.bind_eq_some_iff.mp htables
  obtain rfl : values = nodeGuids := congrArg Prod.fst (Option.some.inj htables)
  rw [hguids, length_of_readElems hvalues]
  have := count.toInt_lt
  omega

theorem compileDag_eq_ok {env : DagEnv} {root : JsonObject} {segs : Segments} (h : compileDag env root = .ok segs) :
    ∃ dag, readDag root = .ok dag ∧ segs = (writeDag env dag).segs := by
  obtain ⟨dag, hdag, h⟩ := Checked.bind_eq_ok.mp h
  exact ⟨dag, hdag, (Except.ok.inj h).symm⟩

/-- The file of a sane document says what the document says. -/
theorem loadDagData_encodes (env : DagEnv) {root : JsonObject} (hsane : SaneDocument root) {dag : DagFields}
    (hdag : readDag root = .ok dag) {image : List UInt8} (hflush : (writeDag env dag).segs.flush 6 = some image) :
    loadDagData image = some (frozenDag env dag) ∧ EncodesDag env root (remapTable dag.guidTable)
    (frozenDag env dag) := by
  obtain ⟨hcomplete, hencodes⟩ := readDag_eq_ok env hsane hdag
  have hload := loadDagData_flush hcomplete hflush
  have hcount := nodeGuids_length_lt hload
  rw [frozenDag, List.length_map] at hcount
  exact ⟨hload, hencodes hcount⟩

/-- A document of two nodes, of which the second one depends on the first, and two scanners. -/
def twoNodeDocument : JsonObject :=
  let str (s : String) : JsonValue := .string (.lit s)
  let tuple : JsonObject := [(.lit "ConfigIndex", .number 0), (.lit "VariantIndex", .number 0),
    (.lit "SubVariantIndex", .number 0)]
  [(.lit "Passes", .array [str "Default"]),
    (.lit "Scanners", .array [
      .object [(.lit "Kind", str "cpp"), (.lit "IncludePaths", .array [str "include"])],
      .object [(.lit "Kind", str "generic"), (.lit "IncludePaths", .array [str "include", str "lib"]),
        (.lit "UseSeparators", .boolean true), (.lit "KeywordsNoFollow", .array [str "import"])]]),
    (.lit "Nodes", .array [
      .object [(.lit "Action", str "cc"), (.lit "Annotation", str "Cc a.o"), (.lit "PassIndex", .number 0),
        (.lit "Inputs", .array [str "./a.c"]), (.lit "Outputs", .array [str "a.o"]), (.lit "ScannerIndex", .number 1)],
      .object [(.lit "Action", str "ld"), (.lit "Annotation", str "Ld a"), (.lit "Deps", .array [.number 0]),
        (.lit "PreciousOutputs", .boolean true), (.lit "Expensive", .boolean true),
        (.lit "Inputs", .array [str "a.o"]), (.lit "Outputs", .array [str "a"]),
        (.lit "Env", .array [.object [(.lit "Key", str "K"), (.lit "Value", str "V")]])]]),
    (.lit "Setup", .object [
      (.lit "Configs", .array [str "c"]), (.lit "Variants", .array [str "v"]), (.lit "SubVariants", .array [str "s"]),
      (.lit "BuildTuples", .array [.object (tuple ++
        [(.lit "DefaultNodes", .array [.number 1]), (.lit "AlwaysNodes", .array []), (.lit "NamedNodes", .object [(.lit "a", .number 1)])])]),
      (.lit "DefaultBuildTuple", .object tuple)])]

/-- A file system without files. -/
def emptyEnv : DagEnv := ⟨fun _ => 0, fun _ => ⟨0, 0⟩, id⟩

/-- The indices, strings and arrays of a DAG are as the build engine needs them. -/
structure WellFormedDag (root : JsonObject) (dag : FrozenDag) : Prop where
  nodeIndices : ∀ node ∈ dag.nodes, ∀ index ∈ node.dependencies ++ node.backLinks, InRange dag.nodes.length index
  tupleIndices : ∀ tuple ∈ dag.setup.buildTuples,
    ∀ index ∈ tuple.defaultNodes ++ tuple.alwaysNodes ++ tuple.namedNodes.map Prod.snd,
    InRange dag.nodes.length index
  passIndices : ∀ node ∈ dag.nodes, InRange dag.passes.length node.passIndex
  strings : ∀ node ∈ dag.nodes, node.action ≠ none ∧ node.annotation ≠ none
  files : ∃ π, Set.BijOn π (Set.Iio (arrayOf root "Nodes").length) (Set.Iio dag.nodes.length) ∧
    ∀ i value, (arrayOf root "Nodes")[i]? = some value → ∃ node frozen, value.asObject = some node ∧
      dag.nodes[π i]? = some frozen ∧
      EncodesFiles (arrayOf node "Inputs") frozen.inputFiles ∧
        EncodesFiles (arrayOf node "Outputs") frozen.outputFiles ∧
        EncodesFiles (arrayOf node "AuxOutputs") frozen.auxOutputFiles

/-- `CompileDag` returns false, or it writes arrays of the lengths it says and the file is well formed. Nothing
else happens. -/
def RejectsMalformed (env : DagEnv) (root : JsonObject) : Prop :=
  compileDag env root = .error .invalid ∨
    ∃ fields, readDag root = .ok fields ∧ fields.Complete ∧
      ∀ image, (writeDag env fields).segs.flush 6 = some image → ∃ dag, loadDagData image = some dag ∧
        WellFormedDag root dag

theorem inRange_of_encodesIndices {nodeCount : Nat} {π : Nat → Nat}
    (hπ : Set.MapsTo π (Set.Iio nodeCount) (Set.Iio nodeCount)) {values : List JsonValue} {indices : List Int32}
    (h : EncodesIndices nodeCount π values indices) :
    ∀ index ∈ indices, InRange nodeCount index := by
  intro index hindex
  have hmem : index.toInt ∈ moved π (values.map nodeIndex) := h.2 ▸ List.mem_map_of_mem hindex
  obtain ⟨i, hi, hindex⟩ := List.mem_map.mp hmem
  obtain ⟨value, hvalue, rfl⟩ := List.mem_map.mp hi
  have hlt : π (nodeIndex value) < nodeCount := hπ (h.1 value hvalue)
  rw [InRange, ← hindex]
  omega

theorem EncodesDag.exists_node {env : DagEnv} {root : JsonObject} {π : Nat → Nat} {dag : FrozenDag}
    (h : EncodesDag env root π dag) {frozen : FrozenNode} (hfrozen : frozen ∈ dag.nodes) :
    ∃ i value node, (arrayOf root "Nodes")[i]? = some value ∧ value.asObject = some node ∧
    EncodesNode env root π i node frozen := by
  obtain ⟨k, hk, rfl⟩ := List.mem_iff_getElem.mp hfrozen
  obtain ⟨i, hi, rfl⟩ := h.permutation.surjOn (h.nodes_length ▸ hk : k < _)
  obtain ⟨node, frozen', hobj, hget, -, hnode⟩ := h.nodes i _ (List.getElem?_eq_getElem hi)
  rw [List.getElem?_eq_getElem hk, Option.some.injEq] at hget
  exact ⟨i, _, node, List.getElem?_eq_getElem hi, hobj, hget ▸ hnode⟩

theorem wellFormedDag_of_encodes {env : DagEnv} {root : JsonObject} {π : Nat → Nat} {dag : FrozenDag}
    (hsane : SaneDocument root) (h : EncodesDag env root π dag) : WellFormedDag root dag where
  nodeIndices frozen hfrozen index hindex := by
    obtain ⟨i, value, node, -, -, hnode⟩ := h.exists_node hfrozen
    rw [h.nodes_length]
    rcases List.mem_append.mp hindex with hindex | hindex
    · exact inRange_of_encodesIndices h.permutation.mapsTo hnode.dependencies index hindex
    · have hmem := hnode.backLinks.mem_iff.mp (List.mem_map_of_mem hindex)
      obtain ⟨j, hj, hindex⟩ := List.mem_map.mp hmem
      have hlt : π j < (arrayOf root "Nodes").length := h.permutation.mapsTo (docBackLinks_lt hj)
      rw [InRange, ← hindex]
      omega
  tupleIndices tuple htuple index hindex := by
    obtain ⟨value, -, obj, -, hencodes⟩ := Checked.exists_of_forall₂ h.setup.buildTuples htuple
    rw [h.nodes_length]
    rcases List.mem_append.mp hindex with hindex | hindex
    · rcases List.mem_append.mp hindex with hindex | hindex
      · exact inRange_of_encodesIndices h.permutation.mapsTo hencodes.defaultNodes index hindex
      · exact inRange_of_encodesIndices h.permutation.mapsTo hencodes.alwaysNodes index hindex
    · exact inRange_of_encodesIndices h.permutation.mapsTo hencodes.namedNodes index hindex
  passIndices frozen hfrozen := by
    obtain ⟨i, value, node, hvalue, hobj, hnode⟩ := h.exists_node hfrozen
    have hlength : dag.passes.length = (arrayOf root "Passes").length := by simpa using congrArg List.length h.passes
    rw [encodesInt_iff.mp hnode.passIndex, hlength]
    exact (hsane.nodes value (List.mem_of_getElem? hvalue) node hobj).pass
  strings frozen hfrozen := by
    obtain ⟨i, value, node, hvalue, hobj, hnode⟩ := h.exists_node hfrozen
    have hsaneNode := hsane.nodes value (List.mem_of_getElem? hvalue) node hobj
    rw [encodesString_iff.mp hnode.action, encodesString_iff.mp hnode.annotation]
    exact ⟨hsaneNode.action, hsaneNode.annotation⟩
  files := by
    refine ⟨π, h.nodes_length ▸ h.permutation, fun i value hvalue => ?_⟩
    obtain ⟨node, frozen, hobj, hget, -, hnode⟩ := h.nodes i value hvalue
    exact ⟨node, frozen, hobj, hget, hnode.inputs, hnode.outputs, hnode.auxOutputs⟩

theorem rejectsMalformed_of_sane (env : DagEnv) {root : JsonObject} (hsane : SaneDocument root) :
    RejectsMalformed env root := by
  cases hread : readDag root with
  | error e =>
      obtain rfl := Fault.eq_invalid (raises_readDag root) hsane hread
      exact .inl (by rw [compileDag, hread]; rfl)
  | ok fields =>
      refine .inr ⟨fields, hread, (readDag_eq_ok env hsane hread).1, fun image hflush => ?_⟩
      obtain ⟨hload, hencodes⟩ := loadDagData_encodes env hsane hread hflush
      exact ⟨_, hload, wellFormedDag_of_encodes hsane hencodes⟩

/-! ### What an accepted document is like -/

theorem ne_none_of_mapM_getString {values : List JsonValue} {strings : List CString}
    (h : values.mapM getString = .ok strings) :
    ∀ value ∈ values, value.asString ≠ none := by
  intro value hvalue
  have hmem : value.asString ∈ strings.map some := mapM_getString_eq_ok h ▸ List.mem_map_of_mem hvalue
  obtain ⟨s, -, hs⟩ := List.mem_map.mp hmem
  exact hs ▸ Option.some_ne_none s

theorem cleanedPath_of_readFiles {values : List JsonValue} {files : List FileAndHash}
    (h : readFiles values = .ok files) :
    files.length ≤ values.length ∧ (files.length = values.length → ∀ value ∈ values, cleanedPath value ≠ none) := by
  induction values generalizing files with
  | nil =>
      obtain rfl := Except.ok.inj h
      exact ⟨le_rfl, fun _ value hvalue => by cases hvalue⟩
  | cons value values ih =>
      rw [readFiles] at h
      split at h
      case h_1 =>
        obtain rfl := Except.ok.inj h
        exact ⟨Nat.zero_le _, fun hlength => by simp at hlength⟩
      case h_2 path hpath =>
        split at h
        case h_1 => cases h
        case h_2 cleaned hcleaned =>
          obtain ⟨rest, hrest, h⟩ := Checked.bind_eq_ok.mp h
          obtain rfl := Except.ok.inj h
          obtain ⟨hle, hwhole⟩ := ih hrest
          refine ⟨Nat.succ_le_succ hle, fun hlength value' hvalue' => ?_⟩
          rcases List.mem_cons.mp hvalue' with rfl | hvalue'
          · rw [cleanedPath, hpath, Option.bind_some, hcleaned]
            exact Option.some_ne_none cleaned
          · exact hwhole (Nat.succ.inj hlength) value' hvalue'

theorem cleanedPath_of_readFileArray {values : Option (List JsonValue)} {files : FileArray}
    (h : readFileArray values = .ok files) (hwhole : files.files.length = files.count) :
    ∀ value ∈ values.getD [], cleanedPath value ≠ none := by
  obtain ⟨rest, hrest, h⟩ := Checked.bind_eq_ok.mp h
  obtain rfl := Except.ok.inj h
  exact (cleanedPath_of_readFiles hrest).2 hwhole

theorem inRange_of_readScannerIndex {scannerCount : Nat} {index : Int32} {scannerIndex : Option Nat}
    (h : readScannerIndex scannerCount index = .ok scannerIndex) : index = -1 ∨ InRange scannerCount index := by
  rw [readScannerIndex] at h
  split_ifs at h with hnone hrange
  · exact .inl hnone
  · exact .inr hrange

theorem saneIndex_of_readNodeIndex {guidTable : List TempNodeGuid} {value : JsonValue} {index : Nat}
    (h : readNodeIndex guidTable value = .ok index) : SaneIndex guidTable.length value := by
  intro num hnum
  obtain ⟨num', hnum', h⟩ := Checked.bind_eq_ok.mp h
  obtain rfl := Option.some.inj (hnum.symm.trans (require_eq_ok.mp hnum'))
  rw [remapped] at h
  split_ifs at h with hrange
  exact hrange

theorem exists_ok_of_mapM {α β : Type} {f : α → Except CompileError β} {xs : List α} {ys : List β}
    (h : xs.mapM f = .ok ys) :
    ∀ x ∈ xs, ∃ y ∈ ys, f x = .ok y := by
  intro x hx
  obtain ⟨i, hi⟩ := List.mem_iff_getElem?.mp hx
  obtain ⟨y, hy, hxy⟩ := Checked.getElem?_of_forall₂ (Checked.mapM_eq_ok.mp h) hi
  exact ⟨y, List.mem_of_getElem? hy, hxy⟩

theorem saneTuple_of_readTuple {guidTable : List TempNodeGuid} {value : JsonValue} {fields : TupleFields}
    (h : readTuple guidTable value = .ok fields) {tuple : JsonObject} (htuple : value.asObject = some tuple) :
    SaneTuple guidTable.length tuple := by
  obtain ⟨tuple', htuple', hread⟩ := tupleRead h
  obtain rfl := Option.some.inj (htuple.symm.trans htuple')
  refine ⟨fun value hvalue => ?_, fun value hvalue => ?_, fun member hmember => ?_⟩
  · obtain ⟨index, -, hindex⟩ := exists_ok_of_mapM hread.defaultNodes value hvalue
    exact saneIndex_of_readNodeIndex hindex
  · obtain ⟨index, -, hindex⟩ := exists_ok_of_mapM hread.alwaysNodes value hvalue
    exact saneIndex_of_readNodeIndex hindex
  · have hnamed := hread.namedNodes
    generalize findObjectValue tuple "NamedNodes" = object at hnamed hmember
    cases object with
    | none => cases hmember
    | some members =>
        obtain ⟨named, hread, -⟩ := Checked.bind_eq_ok.mp hnamed
        obtain ⟨pair, -, hpair⟩ := exists_ok_of_mapM hread member hmember
        obtain ⟨index, hindex, -⟩ := Checked.bind_eq_ok.mp hpair
        exact saneIndex_of_readNodeIndex hindex

theorem saneNode_of_readNode {passCount scannerCount : Nat} {guidTable : List TempNodeGuid} {value : JsonValue}
    {deps : Option (List Nat)} {links : List Nat} {fields : NodeFields}
    (h : readNode scannerCount guidTable value deps links = .ok fields) (hwhole : fields.Complete)
    (haction : fields.action ≠ none) (hpass : InRange passCount fields.passIndex) {node : JsonObject}
    (hnode : value.asObject = some node) :
    SaneNode passCount scannerCount node := by
  obtain ⟨node', hnode', hread⟩ := nodeRead h
  obtain rfl := Option.some.inj (hnode.symm.trans hnode')
  exact {
    action := hread.action ▸ haction
    annotation := hread.annotation ▸ Option.some_ne_none fields.annotation
    pass := hread.passIndex ▸ hpass
    scanner := inRange_of_readScannerIndex hread.scannerIndex
    inputs := cleanedPath_of_readFileArray hread.inputs hwhole.inputs
    outputs := cleanedPath_of_readFileArray hread.outputs hwhole.outputs
    auxOutputs := cleanedPath_of_readFileArray hread.auxOutputs hwhole.auxOutputs }

theorem sane_of_readSetup {guidTable : List TempNodeGuid} {root : JsonObject} {fields : SetupFields}
    (h : readSetup guidTable root = .ok fields) :
    (∀ key ∈ ["Configs", "Variants", "SubVariants"], ∀ value ∈ arrayOf (setupOf root) key, value.asString ≠ none) ∧
      ∀ value ∈ arrayOf (setupOf root) "BuildTuples", ∀ tuple, value.asObject = some tuple →
      SaneTuple guidTable.length tuple := by
  have hread := setupRead h
  refine ⟨fun key hkey => ?_, fun value hvalue tuple htuple => ?_⟩
  · simp only [List.mem_cons, List.not_mem_nil, or_false] at hkey
    rcases hkey with rfl | rfl | rfl
    · exact ne_none_of_mapM_getString hread.configs
    · exact ne_none_of_mapM_getString hread.variants
    · exact ne_none_of_mapM_getString hread.subVariants
  · obtain ⟨fields, -, hfields⟩ := exists_ok_of_mapM hread.tuples value hvalue
    exact saneTuple_of_readTuple hfields htuple

theorem asObject_of_readGlobSignatures {values : List JsonValue} {globs : GlobArray}
    (h : readGlobSignatures values = .ok globs) (hwhole : globs.paths.length = globs.count) :
    ∀ value ∈ values, value.asObject ≠ none := by
  obtain ⟨paths, hpaths, h⟩ := Checked.bind_eq_ok.mp h
  obtain rfl := Except.ok.inj h
  have hlength : (values.filterMap JsonValue.asObject).length = values.length :=
    (Checked.mapM_eq_ok.mp hpaths).length_eq.trans hwhole
  intro value hvalue
  exact Option.isSome_iff_ne_none.mp (List.filterMap_length_eq_length.mp hlength value hvalue)

/-- A document that is accepted is sane, apart from the actions and passes, if no array is cut short. -/
theorem saneDocument_of_readDag {root : JsonObject} {fields : DagFields} (h : readDag root = .ok fields)
    (hwhole : fields.Complete)
    (hnode : ∀ node ∈ fields.nodes, node.action ≠ none ∧ InRange fields.passes.length node.passIndex) :
    SaneDocument root := by
  have hread := dagRead h
  have hpassCount : fields.passes.length = (arrayOf root "Passes").length :=
    (Checked.mapM_eq_ok.mp hread.passes).length_eq.symm
  have hscannerCount : fields.scanners.length = (arrayOf root "Scanners").length :=
    (Checked.mapM_eq_ok.mp hread.scanners).length_eq.symm
  obtain ⟨hnames, htuples⟩ := sane_of_readSetup hread.setup
  exact {
    nodes := fun value hvalue node hobj => by
      obtain ⟨i, hi⟩ := List.mem_iff_getElem?.mp hvalue
      obtain ⟨guid, hguid, rfl⟩ := hread.guids.getElem?_remapTable (List.getElem?_eq_some_iff.mp hi).1
      obtain ⟨deps, -, hnodes⟩ := Checked.bind_eq_ok.mp hread.nodes
      obtain ⟨nodeFields, hmem, hnodeFields⟩ := exists_ok_of_mapM hnodes guid (List.mem_of_getElem? hguid)
      rw [List.getD_eq_getElem?_getD, hi, Option.getD_some] at hnodeFields
      obtain ⟨haction, hpass⟩ := hnode nodeFields hmem
      rw [← hscannerCount, ← hpassCount]
      exact saneNode_of_readNode hnodeFields (hwhole.nodes nodeFields hmem) haction hpass hobj
    passes := ne_none_of_mapM_getString hread.passes
    includePaths := fun value hvalue data hdata => by
      obtain ⟨scanner, -, hscanner⟩ := exists_ok_of_mapM hread.scanners value hvalue
      obtain ⟨data', hdata', hencodes⟩ := readScanner_eq_ok ⟨fun _ => 0, fun _ => ⟨0, 0⟩, id⟩ hscanner
      obtain rfl := Option.some.inj (hdata.symm.trans hdata')
      intro path hpath
      have hmem : path.asString ∈ List.map some _ := hencodes.includePaths ▸ List.mem_map_of_mem hpath
      obtain ⟨s, -, hs⟩ := List.mem_map.mp hmem
      exact hs ▸ Option.some_ne_none s
    names := hnames
    tuples := by rwa [← hread.guids.length_eq]
    globSignatures := fun value hvalue => by
      have hglobs := hread.globSignatures
      cases hfields : fields.globSignatures with
      | none =>
          rw [hfields] at hglobs
          rw [arrayOf] at hvalue
          cases harray : findArrayValue root "GlobSignatures" with
          | none =>
              rw [harray] at hvalue
              cases hvalue
          | some values =>
              rw [harray] at hglobs
              obtain ⟨globs, -, hglobs⟩ := Checked.bind_eq_ok.mp hglobs
              cases hglobs
      | some globs =>
          rw [hfields] at hglobs
          obtain ⟨values, hvalues, hread⟩ := readOptional_eq_some hglobs
          rw [arrayOf, hvalues, Option.getD_some] at hvalue
          exact asObject_of_readGlobSignatures hread (hwhole.globSignatures globs hfields) value hvalue }

theorem length_of_readFiles {values : List JsonValue} {files : List FileAndHash}
    (hstrings : ∀ value ∈ values, value.asString ≠ none) (h : readFiles values = .ok files) :
    files.length = values.length := by
  induction values generalizing files with
  | nil =>
      obtain rfl := Except.ok.inj h
      rfl
  | cons value values ih =>
      rw [readFiles] at h
      split at h
      case h_1 hnone => exact absurd hnone (hstrings value List.mem_cons_self)
      case h_2 path hpath =>
        split at h
        case h_1 => cases h
        case h_2 cleaned hcleaned =>
          obtain ⟨rest, hrest, h⟩ := Checked.bind_eq_ok.mp h
          obtain rfl := Except.ok.inj h
          rw [List.length_cons, List.length_cons,
            ih (fun value hvalue => hstrings value (List.mem_cons_of_mem _ hvalue)) hrest]

/-- The fields of a node that was read: where it comes from, and that its arrays of files are whole if they hold
strings only. -/
theorem fields_of_readNode {scannerCount : Nat} {guidTable : List TempNodeGuid} {value : JsonValue}
    {deps : Option (List Nat)} {links : List Nat} {fields : NodeFields}
    (h : readNode scannerCount guidTable value deps links = .ok fields) :
    ∃ node, value.asObject = some node ∧ fields.action = findStringValue node "Action" ∧
    fields.passIndex = findIntValue node "PassIndex" 0 ∧
      ((∀ key ∈ ["Inputs", "Outputs", "AuxOutputs"], ∀ file ∈ arrayOf node key, file.asString ≠ none) →
      fields.Complete) := by
  obtain ⟨node, hnode, hread⟩ := nodeRead h
  refine ⟨node, hnode, hread.action, hread.passIndex, fun hstrings => ?_⟩
  have hwhole : ∀ key ∈ ["Inputs", "Outputs", "AuxOutputs"], ∀ files, readFileArray (findArrayValue node key) =
    .ok files →
      files.files.length = files.count := fun key hkey files hfiles => by
    obtain ⟨rest, hrest, hfiles⟩ := Checked.bind_eq_ok.mp hfiles
    obtain rfl := Except.ok.inj hfiles
    exact length_of_readFiles (hstrings key hkey) hrest
  exact ⟨hwhole "Inputs" (by simp) _ hread.inputs, hwhole "Outputs" (by simp) _ hread.outputs,
    hwhole "AuxOutputs" (by simp) _ hread.auxOutputs⟩

theorem fields_of_readDag {root : JsonObject} {fields : DagFields} (h : readDag root = .ok fields) :
    (∀ node ∈ fields.nodes, ∃ value ∈ arrayOf root "Nodes", ∃ obj, value.asObject = some obj ∧
    node.action = findStringValue obj "Action" ∧
      node.passIndex = findIntValue obj "PassIndex" 0 ∧
        ((∀ key ∈ ["Inputs", "Outputs", "AuxOutputs"], ∀ file ∈ arrayOf obj key, file.asString ≠ none) → node.Complete)) ∧
    fields.nodes.length = fields.guidTable.length ∧ fields.passes.length = (arrayOf root "Passes").length ∧
    fields.guidTable.length = (arrayOf root "Nodes").length ∧ fields.fileNames.length = 6 ∧
    ((∀ value ∈ arrayOf root "GlobSignatures", value.asObject ≠ none) →
      ∀ globs, fields.globSignatures = some globs → globs.paths.length = globs.count) := by
  have hread := dagRead h
  obtain ⟨deps, -, hnodes⟩ := Checked.bind_eq_ok.mp hread.nodes
  replace hnodes := Checked.mapM_eq_ok.mp hnodes
  refine ⟨fun node hnode => ?_, hnodes.length_eq.symm, (Checked.mapM_eq_ok.mp hread.passes).length_eq.symm,
    hread.guids.length_eq,
    hread.fileNames ▸ rfl, fun hobjects g hg => ?_⟩
  · obtain ⟨guid, hguid, hnode⟩ := Checked.exists_of_forall₂ hnodes hnode
    obtain ⟨value, nobj, hvalue, -⟩ := hread.guids.guids guid hguid
    rw [List.getD_eq_getElem?_getD, hvalue, Option.getD_some] at hnode
    exact ⟨value, List.mem_of_getElem? hvalue, fields_of_readNode hnode⟩
  · obtain ⟨values, hvalues, hglobs⟩ := readOptional_eq_some (hg ▸ hread.globSignatures)
    exact (readGlobSignatures_eq_ok (fun value hvalue => hobjects value (by rwa [arrayOf, hvalues])) hglobs).2

/-- A document like `twoNodeDocument` whose default node does not exist. -/
def noSuchNodeDocument : JsonObject :=
  let str (s : String) : JsonValue := .string (.lit s)
  let tuple : JsonObject := [(.lit "ConfigIndex", .number 0), (.lit "VariantIndex", .number 0),
    (.lit "SubVariantIndex", .number 0)]
  [(.lit "Passes", .array [str "Default"]),
    (.lit "Nodes", .array [.object [(.lit "Action", str "cc"), (.lit "Annotation", str "Cc a.o")]]),
    (.lit "Setup", .object [
      (.lit "Configs", .array [str "c"]), (.lit "Variants", .array [str "v"]), (.lit "SubVariants", .array [str "s"]),
      (.lit "BuildTuples", .array
        [.object (tuple ++ [(.lit "DefaultNodes", .array [.number 5]), (.lit "AlwaysNodes", .array [])])]),
      (.lit "DefaultBuildTuple", .object tuple)])]

end Tundra
