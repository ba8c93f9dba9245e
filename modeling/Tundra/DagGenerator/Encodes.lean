import Tundra.DagGenerator.WellFormed
import Tundra.DagGenerator.ReadBack
import Tundra.DagGenerator.NodeGuid
import Tundra.DagGenerator.ScannerGuid

/-!
# What the DAG says

The DAG in the file against the document it was made from. The nodes of the document come out in another order,
and every index of a node, wherever it stands, is moved along with them.
-/

namespace Tundra

open Bytes DagWriter

/-- The index that a number of the document stands for. -/
def nodeIndex (value : JsonValue) : Nat := ((value.asNumber.map doubleToInt32).getD 0).toInt.toNat

def docDeps (value : JsonValue) : List Nat :=
    ((value.asObject.map fun node => arrayOf node "Deps").getD []).map nodeIndex

/-- The nodes that list a node as a dependency, each as often as it lists it. -/
def docBackLinks (nodes : List JsonValue) (node : Nat) : List Nat :=
  nodes.zipIdx.flatMap fun (value, i) => List.replicate ((docDeps value).count node) i

/-- Indices of the document, moved to their new places. -/
def moved (π : Nat → Nat) (indices : List Nat) : List Int := indices.map fun index => (π index : Int)

/-- Node indices of the document, all of them in range, at their new places. -/
def EncodesIndices (nodeCount : Nat) (π : Nat → Nat) (values : List JsonValue) (indices : List Int32) : Prop :=
  (∀ value ∈ values, nodeIndex value < nodeCount) ∧ indices.map Int32.toInt = moved π (values.map nodeIndex)

/-- The files of a node: the cleaned paths with their hashes. -/
def EncodesFiles (values : List JsonValue) (files : List FileAndHash) : Prop :=
  List.Forall₂ (fun value file => cleanedPath value = some file.filename ∧
    file.filenameHash = djb2HashPath file.filename) values files

/-- The string a member of an object is, if it is one. -/
def EncodesString (obj : JsonObject) (key : String) (text : Option CString) : Prop :=
  ∀ s, text = some s ↔ obj.find (.lit key) = some (.string s)

/-- The number a member of an object is, cut to an `int`, or the default if it is none. -/
def EncodesInt (obj : JsonObject) (key : String) (defValue : Int64) (v : Int32) : Prop :=
  (∀ x, obj.find (.lit key) = some (.number x) → v = (doubleToInt64 x).toInt32) ∧
    ((∀ x, obj.find (.lit key) ≠ some (.number x)) → v = defValue.toInt32)

/-- A bit is set exactly if the member with its name is there and true. No other bit is. -/
def EncodesFlags (obj : JsonObject) (names : List String) (flags : UInt32) : Prop :=
  ∀ bit, flags.toNat.testBit bit = true ↔ ∃ name, names[bit]? = some name ∧ obj.find (.lit name) = some (.boolean true)

/-- The keywords of a scanner in the order they are written: those of the one array are followed, those of the
other are not. -/
def docKeywords (data : JsonObject) : List (JsonValue × Bool) :=
  (arrayOf data "Keywords").map (fun value => (value, true)) ++ (arrayOf data "KeywordsNoFollow").map
    fun value => (value, false)

/-- A keyword with the lower 16 bits of its length. -/
def EncodesKeyword (value : JsonValue × Bool) (keyword : FrozenKeyword) : Prop :=
  value.1 = .string keyword.string ∧ keyword.stringLength.toInt = (keyword.string.bytes.length : Int).bmod (2 ^ 16) ∧
    keyword.shouldFollow = value.2

/-- What the guid of a scanner is the digest of: its kind and its include paths, one behind the other. -/
def scannerBytes (data : JsonObject) : List UInt8 :=
  ((findStringValue data "Kind").toList ++ (arrayOf data "IncludePaths").filterMap JsonValue.asString).flatMap
    CString.bytes

structure EncodesScanner (env : DagEnv) (data : JsonObject) (scanner : FrozenScanner) : Prop where
  includePaths : scanner.includePaths.map some = (arrayOf data "IncludePaths").map JsonValue.asString
  kind :
    findStringValue data "Kind" = some (.lit "cpp") ∧ scanner.scannerType = 0 ∧
      scanner.scannerGuid = hashDigest (scannerBytes data) ∧ scanner.generic = none ∨
    findStringValue data "Kind" = some (.lit "generic") ∧ scanner.scannerType = 1 ∧
      scanner.scannerGuid = env.digestSpace (hashDigest (scannerBytes data)) ∧
      ∃ flags keywords, scanner.generic = some (flags, keywords) ∧
        EncodesFlags data ["RequireWhitespace", "UseSeparators", "BareMeansSystem"] flags ∧
        List.Forall₂ EncodesKeyword (docKeywords data) keywords

def EncodesScannerIndex (env : DagEnv) (scanners : List JsonValue) (index : Int32) (scanner : Option FrozenScanner) :
    Prop :=
  index = -1 ∧ scanner = none ∨
    ∃ value data frozen, InRange scanners.length index ∧ scanners[index.toInt.toNat]? = some value ∧
      value.asObject = some data ∧
      scanner = some frozen ∧ EncodesScanner env data frozen

/-- A node of the file says what a node of the document says. -/
structure EncodesNode (env : DagEnv) (root : JsonObject) (π : Nat → Nat) (i : Nat) (node : JsonObject)
    (frozen : FrozenNode) : Prop where
  action : EncodesString node "Action" frozen.action
  preAction : EncodesString node "PreAction" frozen.preAction
  annotation : EncodesString node "Annotation" frozen.annotation
  passIndex : EncodesInt node "PassIndex" 0 frozen.passIndex
  envVars : frozen.envVars.map (fun envVar => (some envVar.name, some envVar.value)) =
    (arrayOf node "Env").map fun entry => (findIn entry "Key", findIn entry "Value")
  flags : EncodesFlags node ["OverwriteOutputs", "PreciousOutputs", "Expensive"] frozen.flags
  scanner : ∃ index, EncodesInt node "ScannerIndex" (-1) index ∧
    EncodesScannerIndex env (arrayOf root "Scanners") index frozen.scanner
  dependencies : EncodesIndices (arrayOf root "Nodes").length π (arrayOf node "Deps") frozen.dependencies
  backLinks : List.Perm (frozen.backLinks.map Int32.toInt) (moved π (docBackLinks (arrayOf root "Nodes") i))
  inputs : EncodesFiles (arrayOf node "Inputs") frozen.inputFiles
  outputs : EncodesFiles (arrayOf node "Outputs") frozen.outputFiles
  auxOutputs : EncodesFiles (arrayOf node "AuxOutputs") frozen.auxOutputFiles

structure EncodesTuple (nodeCount : Nat) (π : Nat → Nat) (tuple : JsonObject) (frozen : FrozenTuple) : Prop where
  configIndex : EncodesInt tuple "ConfigIndex" (-1) frozen.configIndex
  variantIndex : EncodesInt tuple "VariantIndex" (-1) frozen.variantIndex
  subVariantIndex : EncodesInt tuple "SubVariantIndex" (-1) frozen.subVariantIndex
  defaultNodes : EncodesIndices nodeCount π (arrayOf tuple "DefaultNodes") frozen.defaultNodes
  alwaysNodes : EncodesIndices nodeCount π (arrayOf tuple "AlwaysNodes") frozen.alwaysNodes
  names : frozen.namedNodes.map Prod.fst = ((findObjectValue tuple "NamedNodes").getD []).map Prod.fst
  namedNodes : EncodesIndices nodeCount π (((findObjectValue tuple "NamedNodes").getD []).map Prod.snd)
    (frozen.namedNodes.map Prod.snd)

def EncodesNames (values : List JsonValue) (names : List CString × List UInt32) : Prop :=
  names.1.map some = values.map JsonValue.asString ∧ names.2 = names.1.map djb2HashPath

structure EncodesSetup (nodeCount : Nat) (π : Nat → Nat) (setup : JsonObject) (frozen : FrozenSetup) : Prop where
  configs : EncodesNames (arrayOf setup "Configs") frozen.configs
  variants : EncodesNames (arrayOf setup "Variants") frozen.variants
  subVariants : EncodesNames (arrayOf setup "SubVariants") frozen.subVariants
  buildTuples : List.Forall₂
    (fun value frozen => ∃ tuple, value.asObject = some tuple ∧ EncodesTuple nodeCount π tuple frozen)
    (arrayOf setup "BuildTuples") frozen.buildTuples
  defaultTuple : ∃ tuple, findObjectValue setup "DefaultBuildTuple" = some tuple ∧
    EncodesInt tuple "ConfigIndex" (-2) frozen.defaultConfigIndex ∧
      EncodesInt tuple "VariantIndex" (-2) frozen.defaultVariantIndex ∧
      EncodesInt tuple "SubVariantIndex" (-2) frozen.defaultSubVariantIndex

/-- The DAG in a file says what the document says, with the nodes moved by a permutation that sorts their guids. -/
structure EncodesDag (env : DagEnv) (root : JsonObject) (π : Nat → Nat) (dag : FrozenDag) : Prop where
  permutation : Set.BijOn π (Set.Iio (arrayOf root "Nodes").length) (Set.Iio (arrayOf root "Nodes").length)
  ascending : dag.nodeGuids.Pairwise (· < ·)
  guids_length : dag.nodeGuids.length = (arrayOf root "Nodes").length
  nodes_length : dag.nodes.length = (arrayOf root "Nodes").length
  nodes : ∀ i value, (arrayOf root "Nodes")[i]? = some value → ∃ node frozen, value.asObject = some node ∧
    dag.nodes[π i]? = some frozen ∧
    dag.nodeGuids[π i]? = some (hashDigest (NodeParts.ofObject node).joined) ∧ EncodesNode env root π i node frozen
  passes : dag.passes.map some = (arrayOf root "Passes").map JsonValue.asString
  setup : EncodesSetup (arrayOf root "Nodes").length π (setupOf root) dag.setup
  fileSignatures : dag.fileSignatures.map (fun sig => (some sig.1, sig.2)) =
    (arrayOf root "FileSignatures").map
      fun value => (findIn value "File", ((findIn value "File").map env.fileTimestamp).getD 0)
  globSignatures : dag.globSignatures.map some =
    (arrayOf root "GlobSignatures").map fun value => (findIn value "Path").map
      fun path => (path, env.globSignature path)
  extensions : dag.shaExtensionHashes.map some = (arrayOf root "ContentDigestExtensions").map
    fun value => value.asString.map djb2HashPath
  maxExpensiveCount : EncodesInt root "MaxExpensiveCount" (-1) dag.maxExpensiveCount
  fileNames : dag.fileNames = fileNameMembers.map
    fun (key, defaultValue) => (findStringValue root key).getD (.lit defaultValue)

/-! ### Parts of the document -/

theorem notNull_eq_ok {x : Option CString} {s : CString} : notNull x = .ok s ↔ x = some s := by
  cases x <;> simp [notNull]

theorem nonEmptyArray_eq_some {array : Option (List JsonValue)} {values : List JsonValue}
    (h : nonEmptyArray array = some values) :
    array = some values := by
  match array with
  | some (value :: rest) => exact h

theorem arrayOf_of_require {obj : JsonObject} {key : String} {values : List JsonValue}
    (h : require (nonEmptyArray (findArrayValue obj key)) = .ok values) : arrayOf obj key = values := by
  rw [arrayOf, nonEmptyArray_eq_some (require_eq_ok.mp h), Option.getD_some]

theorem getBoolean_eq_true {obj : JsonObject} {key : String} :
    getBoolean obj key = true ↔ obj.find (.lit key) = some (.boolean true) := by
  rw [getBoolean]
  cases obj.find (.lit key) with
  | none => simp
  | some value => cases value <;> simp [JsonValue.asBoolean]

theorem encodesString_iff {obj : JsonObject} {key : String} {text : Option CString} :
    EncodesString obj key text ↔ text = findStringValue obj key := by
  have hfind : ∀ s, findStringValue obj key = some s ↔ obj.find (.lit key) = some (.string s) := by
    intro s
    rw [findStringValue]
    cases obj.find (.lit key) with
    | none => simp
    | some value => cases value <;> simp [JsonValue.asString]
  rw [EncodesString]
  simp only [← hfind]
  exact ⟨fun h => Option.ext h, fun h s => by rw [h]⟩

theorem encodesInt_iff {obj : JsonObject} {key : String} {defValue : Int64} {v : Int32} :
    EncodesInt obj key defValue v ↔ v = findIntValue obj key defValue := by
  rw [EncodesInt, findIntValue]
  cases obj.find (.lit key) with
  | none => simp
  | some value => cases value <;> simp [JsonValue.asNumber]

theorem testBit_flags (b₀ b₁ b₂ : Bool) (bit : Nat) :
    ((if b₀ then 1 else 0 : UInt32) ||| (if b₁ then 2 else 0) ||| (if b₂ then 4 else 0)).toNat.testBit bit =
      ([b₀, b₁, b₂][bit]?.getD false) := by
  match bit with
  | 0 => cases b₀ <;> cases b₁ <;> cases b₂ <;> rfl
  | 1 => cases b₀ <;> cases b₁ <;> cases b₂ <;> rfl
  | 2 => cases b₀ <;> cases b₁ <;> cases b₂ <;> rfl
  | bit + 3 =>
      have hsmall : ((if b₀ then 1 else 0 : UInt32) ||| (if b₁ then 2 else 0) ||| (if b₂ then 4 else 0)).toNat <
        2 ^ 3 := by
        cases b₀ <;> cases b₁ <;> cases b₂ <;> decide
      exact Nat.testBit_lt_two_pow (hsmall.trans_le (Nat.pow_le_pow_right Nat.zero_lt_two (Nat.le_add_left 3 bit)))

theorem encodesFlags (obj : JsonObject) (first second third : String) :
    EncodesFlags obj [first, second, third]
    (getNodeFlag obj first 1 ||| getNodeFlag obj second 2 ||| getNodeFlag obj third 4) := by
  intro bit
  simp only [getNodeFlag, testBit_flags, ← getBoolean_eq_true]
  match bit with
  | 0 | 1 | 2 => simp
  | bit + 3 => simp

/-! ### What was read -/

/-- What `readNode` takes from a node. -/
structure NodeRead (scannerCount : Nat) (guidTable : List TempNodeGuid) (deps : Option (List Nat)) (links : List Nat)
    (node : JsonObject)
    (fields : NodeFields) : Prop where
  action : fields.action = findStringValue node "Action"
  preaction : fields.preaction = findStringValue node "PreAction"
  annotation : findStringValue node "Annotation" = some fields.annotation
  passIndex : fields.passIndex = findIntValue node "PassIndex" 0
  deps : fields.deps = deps.map fun deps => deps.map (remapTable guidTable)
  backLinks : fields.backLinks = links.map (remapTable guidTable)
  inputs : readFileArray (findArrayValue node "Inputs") = .ok fields.inputs
  outputs : readFileArray (findArrayValue node "Outputs") = .ok fields.outputs
  auxOutputs : readFileArray (findArrayValue node "AuxOutputs") = .ok fields.auxOutputs
  envVars : (arrayOf node "Env").mapM readEnvVar = .ok fields.envVars
  scannerIndex : readScannerIndex scannerCount (findIntValue node "ScannerIndex" (-1)) = .ok fields.scannerIndex
  flags : fields.flags = getNodeFlag node "OverwriteOutputs" 1 ||| getNodeFlag node "PreciousOutputs" 2 |||
    getNodeFlag node "Expensive" 4

theorem nodeRead {scannerCount : Nat} {guidTable : List TempNodeGuid} {value : JsonValue} {deps : Option (List Nat)}
    {links : List Nat} {fields : NodeFields} (h : readNode scannerCount guidTable value deps links = .ok fields) :
    ∃ node, value.asObject = some node ∧ NodeRead scannerCount guidTable deps links node fields := by
  obtain ⟨node, hnode, h⟩ := Checked.bind_eq_ok.mp h
  obtain ⟨label, hlabel, h⟩ := Checked.bind_eq_ok.mp h
  obtain ⟨inputs, hinputs, h⟩ := Checked.bind_eq_ok.mp h
  obtain ⟨outputs, houtputs, h⟩ := Checked.bind_eq_ok.mp h
  obtain ⟨auxOutputs, hauxOutputs, h⟩ := Checked.bind_eq_ok.mp h
  obtain ⟨envVars, henvVars, h⟩ := Checked.bind_eq_ok.mp h
  obtain ⟨scannerIndex, hscannerIndex, h⟩ := Checked.bind_eq_ok.mp h
  obtain rfl := Except.ok.inj h
  exact ⟨node, require_eq_ok.mp hnode, rfl, rfl, notNull_eq_ok.mp hlabel, rfl, rfl, rfl, hinputs, houtputs,
    hauxOutputs, henvVars, hscannerIndex, rfl⟩

/-- What `readTuple` takes from a build tuple. -/
structure TupleRead (guidTable : List TempNodeGuid) (tuple : JsonObject) (fields : TupleFields) : Prop where
  configIndex : fields.configIndex = findIntValue tuple "ConfigIndex" (-1)
  variantIndex : fields.variantIndex = findIntValue tuple "VariantIndex" (-1)
  subVariantIndex : fields.subVariantIndex = findIntValue tuple "SubVariantIndex" (-1)
  defaultNodes : (arrayOf tuple "DefaultNodes").mapM (readNodeIndex guidTable) = .ok fields.defaultNodes
  alwaysNodes : (arrayOf tuple "AlwaysNodes").mapM (readNodeIndex guidTable) = .ok fields.alwaysNodes
  namedNodes : readNamedNodes guidTable (findObjectValue tuple "NamedNodes") = .ok fields.namedNodes

theorem tupleRead {guidTable : List TempNodeGuid} {value : JsonValue} {fields : TupleFields}
    (h : readTuple guidTable value = .ok fields) :
    ∃ tuple, value.asObject = some tuple ∧ TupleRead guidTable tuple fields := by
  obtain ⟨tuple, htuple, h⟩ := Checked.bind_eq_ok.mp h
  dsimp only at h
  split_ifs at h
  · cases h
  obtain ⟨defaultNodes, hdefault, h⟩ := Checked.bind_eq_ok.mp h
  obtain ⟨alwaysNodes, halways, h⟩ := Checked.bind_eq_ok.mp h
  obtain ⟨defaultIndices, hdefault', h⟩ := Checked.bind_eq_ok.mp h
  obtain ⟨alwaysIndices, halways', h⟩ := Checked.bind_eq_ok.mp h
  obtain ⟨namedNodes, hnamed, h⟩ := Checked.bind_eq_ok.mp h
  obtain rfl := Except.ok.inj h
  refine ⟨tuple, require_eq_ok.mp htuple, rfl, rfl, rfl, ?_, ?_, hnamed⟩
  · rwa [arrayOf, require_eq_ok.mp hdefault, Option.getD_some]
  · rwa [arrayOf, require_eq_ok.mp halways, Option.getD_some]

/-- What `readSetup` takes from `Setup`. -/
structure SetupRead (guidTable : List TempNodeGuid) (setup : JsonObject) (fields : SetupFields) : Prop where
  configs : (arrayOf setup "Configs").mapM getString = .ok fields.configs
  variants : (arrayOf setup "Variants").mapM getString = .ok fields.variants
  subVariants : (arrayOf setup "SubVariants").mapM getString = .ok fields.subVariants
  tuples : (arrayOf setup "BuildTuples").mapM (readTuple guidTable) = .ok fields.tuples
  defaultTuple : ∃ tuple, findObjectValue setup "DefaultBuildTuple" = some tuple ∧
    fields.defaultConfigIndex = findIntValue tuple "ConfigIndex" (-2) ∧
    fields.defaultVariantIndex = findIntValue tuple "VariantIndex" (-2) ∧
      fields.defaultSubVariantIndex = findIntValue tuple "SubVariantIndex" (-2)

theorem setupRead {guidTable : List TempNodeGuid} {root : JsonObject} {fields : SetupFields}
    (h : readSetup guidTable root = .ok fields) :
    SetupRead guidTable (setupOf root) fields := by
  obtain ⟨setup, hsetup, h⟩ := Checked.bind_eq_ok.mp h
  rw [setupOf, require_eq_ok.mp hsetup, Option.getD_some]
  obtain ⟨configs, hconfigs, h⟩ := Checked.bind_eq_ok.mp h
  obtain ⟨variants, hvariants, h⟩ := Checked.bind_eq_ok.mp h
  obtain ⟨subVariants, hsubVariants, h⟩ := Checked.bind_eq_ok.mp h
  obtain ⟨tuples, htuples, h⟩ := Checked.bind_eq_ok.mp h
  obtain ⟨configNames, hconfigNames, h⟩ := Checked.bind_eq_ok.mp h
  obtain ⟨variantNames, hvariantNames, h⟩ := Checked.bind_eq_ok.mp h
  obtain ⟨subVariantNames, hsubVariantNames, h⟩ := Checked.bind_eq_ok.mp h
  obtain ⟨tupleFields, htupleFields, h⟩ := Checked.bind_eq_ok.mp h
  obtain ⟨defaultTuple, hdefault, h⟩ := Checked.bind_eq_ok.mp h
  dsimp only at h
  split_ifs at h
  · cases h
  obtain rfl := Except.ok.inj h
  exact {
    configs := arrayOf_of_require hconfigs ▸ hconfigNames
    variants := arrayOf_of_require hvariants ▸ hvariantNames
    subVariants := arrayOf_of_require hsubVariants ▸ hsubVariantNames
    tuples := arrayOf_of_require htuples ▸ htupleFields
    defaultTuple := ⟨defaultTuple, require_eq_ok.mp hdefault, rfl, rfl, rfl⟩ }

/-- What `readDag` takes from a document. -/
structure DagRead (root : JsonObject) (fields : DagFields) : Prop where
  scanners : (arrayOf root "Scanners").mapM readScanner = .ok fields.scanners
  guids : GuidTable (arrayOf root "Nodes") fields.guidTable
  nodes : readNodes fields.scanners.length fields.guidTable (arrayOf root "Nodes") = .ok fields.nodes
  passes : (arrayOf root "Passes").mapM getString = .ok fields.passes
  setup : readSetup fields.guidTable root = .ok fields.setup
  fileSignatures : readOptional (List.mapM readFileSignature) (findArrayValue root "FileSignatures") =
    .ok fields.fileSignatures
  globSignatures : readOptional readGlobSignatures (findArrayValue root "GlobSignatures") = .ok fields.globSignatures
  extensions : readOptional (List.mapM readExtension) (findArrayValue root "ContentDigestExtensions") =
    .ok fields.contentDigestExtensions
  maxExpensiveCount : fields.maxExpensiveCount = findIntValue root "MaxExpensiveCount" (-1)
  fileNames : fields.fileNames = fileNameMembers.map
    fun (key, defaultValue) => (findStringValue root key).getD (.lit defaultValue)

theorem dagRead {root : JsonObject} {fields : DagFields} (h : readDag root = .ok fields) : DagRead root fields := by
  obtain ⟨nodes, hnodes, h⟩ := Checked.bind_eq_ok.mp h
  obtain ⟨passes, hpasses, h⟩ := Checked.bind_eq_ok.mp h
  obtain ⟨scanners, hscanners, h⟩ := Checked.bind_eq_ok.mp h
  obtain ⟨guidTable, hguids, h⟩ := Checked.bind_eq_ok.mp h
  obtain ⟨nodeFields, hnodeFields, h⟩ := Checked.bind_eq_ok.mp h
  obtain ⟨passNames, hpassNames, h⟩ := Checked.bind_eq_ok.mp h
  obtain ⟨setup, hsetup, h⟩ := Checked.bind_eq_ok.mp h
  obtain ⟨files, hfiles, h⟩ := Checked.bind_eq_ok.mp h
  obtain ⟨globs, hglobs, h⟩ := Checked.bind_eq_ok.mp h
  obtain ⟨exts, hexts, h⟩ := Checked.bind_eq_ok.mp h
  obtain rfl := Except.ok.inj h
  replace hnodes := arrayOf_of_require hnodes
  exact {
    scanners := hscanners
    guids := hnodes ▸ computeNodeGuids_eq_ok hguids
    nodes := hnodes ▸ hnodeFields
    passes := arrayOf_of_require hpasses ▸ hpassNames
    setup := hsetup
    fileSignatures := hfiles
    globSignatures := hglobs
    extensions := hexts
    maxExpensiveCount := rfl
    fileNames := rfl }

/-! ### Parts of the document, as they are written -/

theorem readFiles_eq_ok {values : List JsonValue} {files : List FileAndHash}
    (hpaths : ∀ value ∈ values, cleanedPath value ≠ none) (h : readFiles values = .ok files) :
    EncodesFiles values files := by
  induction values generalizing files with
  | nil =>
      obtain rfl := Except.ok.inj h
      exact .nil
  | cons value values ih =>
      have hvalue := hpaths value List.mem_cons_self
      rw [readFiles] at h
      split at h
      case h_1 hnone => exact absurd (by rw [cleanedPath, hnone, Option.bind_none]) hvalue
      case h_2 path hpath =>
        split at h
        case h_1 => cases h
        case h_2 cleaned hcleaned =>
          obtain ⟨rest, hrest, h⟩ := Checked.bind_eq_ok.mp h
          obtain rfl := Except.ok.inj h
          refine .cons ⟨?_, rfl⟩ (ih (fun value hvalue => hpaths value (List.mem_cons_of_mem _ hvalue)) hrest)
          rw [cleanedPath, hpath, Option.bind_some, hcleaned]

theorem readFileArray_eq_ok {values : Option (List JsonValue)} {files : FileArray}
    (hpaths : ∀ value ∈ values.getD [], cleanedPath value ≠ none) (h : readFileArray values = .ok files) :
    EncodesFiles (values.getD []) files.files ∧ files.files.length = files.count := by
  obtain ⟨rest, hrest, h⟩ := Checked.bind_eq_ok.mp h
  obtain rfl := Except.ok.inj h
  have hfiles := readFiles_eq_ok hpaths hrest
  exact ⟨hfiles, hfiles.length_eq.symm⟩

theorem mapM_getString_eq_ok {values : List JsonValue} {strings : List CString}
    (h : values.mapM getString = .ok strings) :
    strings.map some = values.map JsonValue.asString :=
  (Checked.map_eq_map (Checked.mapM_eq_ok.mp h) fun _ _ _ hstring => notNull_eq_ok.mp hstring).symm

theorem asString_eq_some {value : JsonValue} {string : CString} :
    value.asString = some string ↔ value = .string string := by
  cases value <;> simp [JsonValue.asString]

theorem readKeywords_eq_ok {shouldFollow : Bool} {array : Option (List JsonValue)} {keywords : List KeywordData}
    (h : readKeywords shouldFollow array = .ok keywords) :
    List.Forall₂ EncodesKeyword ((array.getD []).map fun value => (value, shouldFollow))
    (keywords.map frozenKeyword) := by
  rw [List.forall₂_map_left_iff, List.forall₂_map_right_iff]
  refine (Checked.mapM_eq_ok.mp h).imp fun value keyword hkeyword => ?_
  obtain ⟨string, hstring, hkeyword⟩ := Checked.bind_eq_ok.mp hkeyword
  obtain rfl := Except.ok.inj hkeyword
  exact ⟨asString_eq_some.mp (require_eq_ok.mp hstring), Int16.toInt_ofNat', rfl⟩

theorem readScanner_guid_scannerBytes {value : JsonValue} {scanner : ScannerData} {data : JsonObject}
    (h : readScanner value = .ok scanner)
    (hkind : findStringValue data "Kind" = some scanner.kind)
    (hpaths : scanner.includePaths.map some = (arrayOf data "IncludePaths").map JsonValue.asString) :
    scanner.scannerGuid = hashDigest (scannerBytes data) := by
  have hstrings : (arrayOf data "IncludePaths").filterMap JsonValue.asString = scanner.includePaths := by
    calc (arrayOf data "IncludePaths").filterMap JsonValue.asString
        = ((arrayOf data "IncludePaths").map JsonValue.asString).filterMap id := by
          rw [List.filterMap_map, Function.id_comp]
      _ = (scanner.includePaths.map some).filterMap id := by rw [hpaths]
      _ = scanner.includePaths := by rw [List.filterMap_map, Function.id_comp, List.filterMap_some]
  have hbytes : scannerBytes data = scanner.hashedBytes := by
    rw [scannerBytes, hkind, hstrings]
    exact List.flatMap_def
  rw [hbytes]
  exact readScanner_guid_eq h

theorem readScanner_eq_ok {value : JsonValue} {scanner : ScannerData} (env : DagEnv)
    (h : readScanner value = .ok scanner) :
    ∃ data, value.asObject = some data ∧ EncodesScanner env data (frozenScanner env scanner) := by
  have hguid := @readScanner_guid_scannerBytes value scanner
  obtain ⟨data, hdata, hread⟩ := Checked.bind_eq_ok.mp h
  obtain ⟨kind, hkind, hread⟩ := Checked.bind_eq_ok.mp hread
  obtain ⟨incpaths, hincpaths, hread⟩ := Checked.bind_eq_ok.mp hread
  replace hincpaths : arrayOf data "IncludePaths" = incpaths := by
    rw [arrayOf, require_eq_ok.mp hincpaths, Option.getD_some]
  refine ⟨data, require_eq_ok.mp hdata, ?_⟩
  split_ifs at hread with hcpp hgeneric
  · obtain ⟨includePaths, hpaths, hread⟩ := Checked.bind_eq_ok.mp hread
    obtain rfl := Except.ok.inj hread
    have hkind := hcpp ▸ require_eq_ok.mp hkind
    have hpaths := hincpaths ▸ mapM_getString_eq_ok hpaths
    exact ⟨hpaths, .inl ⟨hkind, rfl, hguid h hkind hpaths, rfl⟩⟩
  · obtain ⟨includePaths, hpaths, hread⟩ := Checked.bind_eq_ok.mp hread
    obtain ⟨follow, hfollow, hread⟩ := Checked.bind_eq_ok.mp hread
    obtain ⟨nofollow, hnofollow, hread⟩ := Checked.bind_eq_ok.mp hread
    obtain rfl := Except.ok.inj hread
    have hkind := hgeneric ▸ require_eq_ok.mp hkind
    have hpaths := hincpaths ▸ mapM_getString_eq_ok hpaths
    refine ⟨hpaths, .inr ⟨hkind, rfl, congrArg env.digestSpace (hguid h hkind hpaths), _, _, rfl,
      encodesFlags data _ _ _, ?_⟩⟩
    rw [List.map_append, docKeywords]
    exact List.rel_append (readKeywords_eq_ok hfollow) (readKeywords_eq_ok hnofollow)

theorem readEnvVars_eq_ok {entries : List JsonValue} {envVars : List EnvVarData}
    (h : entries.mapM readEnvVar = .ok envVars) :
    envVars.map (fun envVar => (some envVar.name, some envVar.value)) = entries.map
    fun entry => (findIn entry "Key", findIn entry "Value") := by
  refine (Checked.map_eq_map (Checked.mapM_eq_ok.mp h) fun entry _ envVar henvVar => ?_).symm
  obtain ⟨key, hkey, henvVar⟩ := Checked.bind_eq_ok.mp henvVar
  obtain ⟨value, hvalue, henvVar⟩ := Checked.bind_eq_ok.mp henvVar
  obtain rfl := Except.ok.inj henvVar
  rw [require_eq_ok.mp hkey, require_eq_ok.mp hvalue]

theorem readDep_eq_ok {nodeCount : Nat} {value : JsonValue} {index : Nat} (h : readDep nodeCount value = .ok index) :
    index = nodeIndex value ∧ index < nodeCount := by
  obtain ⟨number, hnumber, h⟩ := Checked.bind_eq_ok.mp h
  dsimp only at h
  split_ifs at h with hout
  obtain rfl := Except.ok.inj h
  refine ⟨?_, by omega⟩
  rw [nodeIndex, require_eq_ok.mp hnumber, Option.map_some, Option.getD_some]

theorem readDeps_eq_ok {nodeCount : Nat} {value : JsonValue} {deps : Option (List Nat)}
    (h : readDeps nodeCount value = .ok deps) :
    deps.getD [] = docDeps value ∧ ∀ index ∈ docDeps value, index < nodeCount := by
  obtain ⟨node, hnode, h⟩ := Checked.bind_eq_ok.mp h
  rw [docDeps, require_eq_ok.mp hnode, Option.map_some, Option.getD_some, arrayOf]
  generalize findArrayValue node "Deps" = array at h
  cases array with
  | none =>
      obtain rfl := Except.ok.inj h
      exact ⟨rfl, fun index hindex => by cases hindex⟩
  | some values =>
      obtain ⟨indices, hindices, h⟩ := Checked.bind_eq_ok.mp h
      obtain rfl := Except.ok.inj h
      have hdeps := Checked.mapM_eq_ok.mp hindices
      have heq : values.map nodeIndex = indices.map id :=
        Checked.map_eq_map hdeps fun value _ index hindex => (readDep_eq_ok hindex).1.symm
      rw [List.map_id] at heq
      refine ⟨heq.symm, fun index hindex => ?_⟩
      rw [Option.getD_some, heq] at hindex
      obtain ⟨value, -, hread⟩ := Checked.exists_of_forall₂ hdeps hindex
      exact (readDep_eq_ok hread).2

theorem backLinks_eq {nodes : List JsonValue} {deps : List (Option (List Nat))} {nodeCount : Nat}
    (h : nodes.mapM (readDeps nodeCount) = .ok deps) (node : Nat) : backLinks deps node = docBackLinks nodes node := by
  have hdeps : nodes.map docDeps = deps.map fun deps => deps.getD [] :=
    Checked.map_eq_map (Checked.mapM_eq_ok.mp h) fun value _ deps hread => (readDeps_eq_ok hread).1.symm
  have hleft : docBackLinks nodes node = (nodes.map docDeps).zipIdx.flatMap
    fun (deps, i) => List.replicate (deps.count node) i := by
    rw [docBackLinks, List.zipIdx_map, List.flatMap_map]
    rfl
  rw [hleft, hdeps, List.zipIdx_map, List.flatMap_map, backLinks]
  congr 1
  funext ⟨deps, i⟩
  show List.map (fun _ => i) ((deps.getD []).filter (· = node)) = List.replicate ((deps.getD []).count node) i
  rw [List.map_const', List.count, List.countP_eq_length_filter]
  rfl

/-! ### Indices -/

section Moved

variable {nodes : List JsonValue} {guidTable : List TempNodeGuid}

theorem toInt_frozenIndex {index : Nat} (h : index < 2 ^ 31) :
    (frozenIndex index).toInt = index := Int32.toInt_ofNat_of_lt h

theorem toInt_remapTable (hguids : GuidTable nodes guidTable) (hcount : nodes.length < 2 ^ 31) {index : Nat}
    (h : index < nodes.length) :
    (frozenIndex (remapTable guidTable index)).toInt = remapTable guidTable index := by
  have hlt : remapTable guidTable index < nodes.length := hguids.bijOn_remapTable.mapsTo h
  exact toInt_frozenIndex (hlt.trans hcount)

theorem map_toInt_remapTable (hguids : GuidTable nodes guidTable) (hcount : nodes.length < 2 ^ 31) {indices : List Nat}
    (h : ∀ index ∈ indices, index < nodes.length) :
    (((indices.map (remapTable guidTable)).map frozenIndex).map Int32.toInt) = moved
    (remapTable guidTable) indices := by
  rw [List.map_map, List.map_map, moved]
  exact List.map_congr_left fun index hindex => toInt_remapTable hguids hcount (h index hindex)

theorem readNodeIndex_eq_ok (hguids : GuidTable nodes guidTable) {value : JsonValue} {index : Nat}
    (h : readNodeIndex guidTable value = .ok index) :
    index = remapTable guidTable (nodeIndex value) ∧ nodeIndex value < nodes.length := by
  obtain ⟨num, hnum, h⟩ := Checked.bind_eq_ok.mp h
  rw [remapped] at h
  split_ifs at h with hrange
  obtain rfl := Except.ok.inj h
  have hindex : nodeIndex value = (doubleToInt32 num).toInt.toNat := by
    rw [nodeIndex, require_eq_ok.mp hnum, Option.map_some, Option.getD_some]
  rw [hindex]
  refine ⟨rfl, ?_⟩
  rw [hguids.length_eq] at hrange
  omega

theorem readNodeIndices_eq_ok (hguids : GuidTable nodes guidTable) (hcount : nodes.length < 2 ^ 31)
    {values : List JsonValue} {indices : List Nat} (h : values.mapM (readNodeIndex guidTable) = .ok indices) :
    EncodesIndices nodes.length (remapTable guidTable) values (indices.map frozenIndex) := by
  have hread := Checked.mapM_eq_ok.mp h
  refine ⟨fun value hvalue => ?_, ?_⟩
  · obtain ⟨i, hi⟩ := List.mem_iff_getElem?.mp hvalue
    obtain ⟨index, -, hindex⟩ := Checked.getElem?_of_forall₂ hread hi
    exact (readNodeIndex_eq_ok hguids hindex).2
  · rw [moved, List.map_map, List.map_map]
    refine (Checked.map_eq_map hread fun value _ index hindex => ?_).symm
    obtain ⟨rfl, hlt⟩ := readNodeIndex_eq_ok hguids hindex
    exact (toInt_remapTable hguids hcount hlt).symm

theorem docBackLinks_lt {node index : Nat} (h : index ∈ docBackLinks nodes node) : index < nodes.length := by
  obtain ⟨⟨value, i⟩, hentry, hindex⟩ := List.mem_flatMap.mp h
  obtain rfl := List.eq_of_mem_replicate hindex
  exact (List.getElem?_eq_some_iff.mp (List.mk_mem_zipIdx_iff_getElem?.mp hentry)).1

theorem readScannerIndex_eq_ok (env : DagEnv) {values : List JsonValue} {scanners : List ScannerData}
    (hscanners : values.mapM readScanner = .ok scanners) {index : Int32} {scannerIndex : Option Nat}
    (h : readScannerIndex scanners.length index = .ok scannerIndex) :
    EncodesScannerIndex env values index
    ((scannerIndex.bind fun index => scanners[index]?).map (frozenScanner env)) := by
  rw [readScannerIndex] at h
  split_ifs at h with hnone hrange
  · obtain rfl := Except.ok.inj h
    exact .inl ⟨hnone, rfl⟩
  · obtain rfl := Except.ok.inj h
    have hread := Checked.mapM_eq_ok.mp hscanners
    rw [← hread.length_eq] at hrange
    have hlt : index.toInt.toNat < values.length := by omega
    obtain ⟨scanner, hget, hscanner⟩ := Checked.getElem?_of_forall₂ hread (List.getElem?_eq_getElem hlt)
    obtain ⟨data, hdata, hencodes⟩ := readScanner_eq_ok env hscanner
    refine .inr ⟨_, data, frozenScanner env scanner, hrange, List.getElem?_eq_getElem hlt, hdata, ?_, hencodes⟩
    rw [Option.bind_some, hget, Option.map_some]

theorem readNode_eq_ok (env : DagEnv) {root : JsonObject} (hnodes : arrayOf root "Nodes" = nodes)
    (hguids : GuidTable nodes guidTable)
    {scanners : List ScannerData} (hscanners : (arrayOf root "Scanners").mapM readScanner = .ok scanners) {i : Nat}
    {value : JsonValue} {deps : Option (List Nat)} (hdeps : readDeps nodes.length value = .ok deps)
    {passCount scannerCount : Nat}
    (hsane : ∀ node, value.asObject = some node → SaneNode passCount scannerCount node) {fields : NodeFields}
    (h : readNode scanners.length guidTable value deps (docBackLinks nodes i) = .ok fields) :
    ∃ node, value.asObject = some node ∧ fields.Complete ∧
      (nodes.length < 2 ^ 31 → EncodesNode env root (remapTable guidTable) i node
      (frozenNode env scanners fields)) := by
  obtain ⟨node, hnode, hread⟩ := nodeRead h
  obtain ⟨hlist, hlt⟩ := readDeps_eq_ok hdeps
  obtain ⟨hinputs, hinputs'⟩ := readFileArray_eq_ok (hsane node hnode).inputs hread.inputs
  obtain ⟨houtputs, houtputs'⟩ := readFileArray_eq_ok (hsane node hnode).outputs hread.outputs
  obtain ⟨hauxOutputs, hauxOutputs'⟩ := readFileArray_eq_ok (hsane node hnode).auxOutputs hread.auxOutputs
  have hdocDeps : docDeps value = (arrayOf node "Deps").map nodeIndex := by
    rw [docDeps, hnode, Option.map_some, Option.getD_some]
  refine ⟨node, hnode, ⟨hinputs', houtputs', hauxOutputs'⟩, fun hcount => ?_⟩
  exact {
    action := encodesString_iff.mpr hread.action
    preAction := encodesString_iff.mpr hread.preaction
    annotation := encodesString_iff.mpr hread.annotation.symm
    passIndex := encodesInt_iff.mpr hread.passIndex
    envVars := readEnvVars_eq_ok hread.envVars
    flags := by
      rw [frozenNode, hread.flags]
      exact encodesFlags node _ _ _
    scanner := ⟨_, encodesInt_iff.mpr rfl, readScannerIndex_eq_ok env hscanners hread.scannerIndex⟩
    dependencies := by
      rw [hdocDeps] at hlist hlt
      rw [hnodes]
      refine ⟨fun value hvalue => hlt _ (List.mem_map_of_mem hvalue), ?_⟩
      rw [← map_toInt_remapTable hguids hcount hlt, ← hlist, frozenNode, hread.deps]
      cases deps <;> rfl
    backLinks := by
      rw [hnodes, frozenNode, hread.backLinks]
      exact List.Perm.of_eq (map_toInt_remapTable hguids hcount fun index hindex => docBackLinks_lt hindex)
    inputs := hinputs
    outputs := houtputs
    auxOutputs := hauxOutputs }

theorem readNamedNodes_eq_ok (hguids : GuidTable nodes guidTable) (hcount : nodes.length < 2 ^ 31)
    {object : Option JsonObject} {named : Option (List (CString × Nat))}
    (h : readNamedNodes guidTable object = .ok named) :
    ((named.getD []).map frozenNamedNode).map Prod.fst = (object.getD []).map Prod.fst ∧
      EncodesIndices nodes.length (remapTable guidTable) ((object.getD []).map Prod.snd)
      (((named.getD []).map frozenNamedNode).map Prod.snd) := by
  cases object with
  | none =>
      obtain rfl := Except.ok.inj h
      exact ⟨rfl, fun value hvalue => (by cases hvalue), rfl⟩
  | some members =>
      obtain ⟨named, hread, h⟩ := Checked.bind_eq_ok.mp h
      obtain rfl := Except.ok.inj h
      have hmembers : List.Forall₂
        (fun member pair => member.1 = pair.1 ∧ readNodeIndex guidTable member.2 = .ok pair.2) members named := by
        refine (Checked.mapM_eq_ok.mp hread).imp fun member pair hpair => ?_
        obtain ⟨index, hindex, hpair⟩ := Checked.bind_eq_ok.mp hpair
        obtain rfl := Except.ok.inj hpair
        exact ⟨rfl, hindex⟩
      have hindices : (members.map Prod.snd).mapM (readNodeIndex guidTable) = .ok (named.map Prod.snd) := by
        rw [Checked.mapM_eq_ok, List.forall₂_map_left_iff, List.forall₂_map_right_iff]
        exact hmembers.imp fun _ _ h => h.2
      refine ⟨?_, ?_⟩
      · rw [Option.getD_some, Option.getD_some, List.map_map]
        exact (Checked.map_eq_map hmembers fun _ _ _ h => h.1).symm
      · rw [Option.getD_some, Option.getD_some, List.map_map]
        have hencodes := readNodeIndices_eq_ok hguids hcount hindices
        rwa [List.map_map] at hencodes

theorem readTuple_eq_ok (hguids : GuidTable nodes guidTable) (hcount : nodes.length < 2 ^ 31) {value : JsonValue}
    {fields : TupleFields} (h : readTuple guidTable value = .ok fields) :
    ∃ tuple, value.asObject = some tuple ∧ EncodesTuple nodes.length (remapTable guidTable) tuple
    (frozenTuple fields) := by
  obtain ⟨tuple, htuple, hread⟩ := tupleRead h
  obtain ⟨hnames, hindices⟩ := readNamedNodes_eq_ok hguids hcount hread.namedNodes
  refine ⟨tuple, htuple, encodesInt_iff.mpr hread.configIndex, encodesInt_iff.mpr hread.variantIndex,
    encodesInt_iff.mpr hread.subVariantIndex, ?_, ?_, hnames, hindices⟩
  · exact readNodeIndices_eq_ok hguids hcount hread.defaultNodes
  · exact readNodeIndices_eq_ok hguids hcount hread.alwaysNodes

theorem encodesNames {values : List JsonValue} {names : List CString} (h : values.mapM getString = .ok names) :
    EncodesNames values (frozenNames names) := ⟨mapM_getString_eq_ok h, rfl⟩

theorem readSetup_eq_ok (hguids : GuidTable nodes guidTable) (hcount : nodes.length < 2 ^ 31) {root : JsonObject}
    {fields : SetupFields} (h : readSetup guidTable root = .ok fields) :
    EncodesSetup nodes.length (remapTable guidTable) (setupOf root) (frozenSetup fields) := by
  have hread := setupRead h
  obtain ⟨defaultTuple, hdefault, hconfig, hvariant, hsubVariant⟩ := hread.defaultTuple
  refine ⟨encodesNames hread.configs, encodesNames hread.variants, encodesNames hread.subVariants, ?_, defaultTuple,
    hdefault,
    encodesInt_iff.mpr hconfig, encodesInt_iff.mpr hvariant, encodesInt_iff.mpr hsubVariant⟩
  refine List.forall₂_map_right_iff.mpr ((Checked.mapM_eq_ok.mp hread.tuples).imp fun value fields hfields => ?_)
  exact readTuple_eq_ok hguids hcount hfields

theorem readNodes_eq_ok (env : DagEnv) {root : JsonObject} (hnodes : arrayOf root "Nodes" = nodes)
    (hguids : GuidTable nodes guidTable)
    {scanners : List ScannerData} (hscanners : (arrayOf root "Scanners").mapM readScanner = .ok scanners)
    (hsane : SaneDocument root) {fields : List NodeFields}
    (h : readNodes scanners.length guidTable nodes = .ok fields) :
    (∀ node ∈ fields, node.Complete) ∧ fields.length = guidTable.length ∧ ∀ i value, nodes[i]? = some value →
    nodes.length < 2 ^ 31 →
      ∃ node fields', value.asObject = some node ∧ fields[remapTable guidTable i]? = some fields' ∧
        (guidTable.map TempNodeGuid.digest)[remapTable guidTable i]? = some (nodeDigest node) ∧
        EncodesNode env root (remapTable guidTable) i node (frozenNode env scanners fields') := by
  obtain ⟨deps, hdeps, h⟩ := Checked.bind_eq_ok.mp h
  have hread := Checked.mapM_eq_ok.mp h
  have hencodes : ∀ guid ∈ guidTable, ∀ fields, readNode scanners.length guidTable (nodes.getD guid.node .null)
    (deps.getD guid.node none)
      (backLinks deps guid.node) = .ok fields → ∃ value node, nodes[guid.node]? = some value ∧
        value.asObject = some node ∧
        fields.Complete ∧ (nodes.length < 2 ^ 31 →
          EncodesNode env root (remapTable guidTable) guid.node node (frozenNode env scanners fields)) := by
    intro guid hguid fields hfields
    obtain ⟨value, nobj, hvalue, -⟩ := hguids.guids guid hguid
    obtain ⟨dep, hdep, hdepOk⟩ := Checked.getElem?_of_forall₂ (Checked.mapM_eq_ok.mp hdeps) hvalue
    rw [List.getD_eq_getElem?_getD, hvalue, Option.getD_some, List.getD_eq_getElem?_getD, hdep, Option.getD_some,
      backLinks_eq hdeps] at hfields
    have hnode := hsane.nodes value (hnodes ▸ List.mem_of_getElem? hvalue)
    obtain ⟨node, hobj, hnode⟩ := readNode_eq_ok env hnodes hguids hscanners hdepOk hnode hfields
    exact ⟨value, node, hvalue, hobj, hnode⟩
  refine ⟨fun node hnode => ?_, hread.length_eq.symm, fun i value hvalue hcount => ?_⟩
  · obtain ⟨guid, hguid, hfields⟩ := Checked.exists_of_forall₂ hread hnode
    obtain ⟨-, -, -, -, hcomplete, -⟩ := hencodes guid hguid node hfields
    exact hcomplete
  · obtain ⟨guid, hguid, rfl⟩ := hguids.getElem?_remapTable (List.getElem?_eq_some_iff.mp hvalue).1
    obtain ⟨fields', hget, hfields⟩ := Checked.getElem?_of_forall₂ hread hguid
    have hmem := List.mem_of_getElem? hguid
    obtain ⟨value', node, hvalue', hobj, -, hnode⟩ := hencodes guid hmem fields' hfields
    obtain rfl := Option.some.inj (hvalue.symm.trans hvalue')
    refine ⟨node, fields', hobj, hget, ?_, hnode hcount⟩
    obtain ⟨value'', nobj, hvalue'', hobj', hdigest⟩ := hguids.guids guid hmem
    obtain rfl := Option.some.inj (hvalue.symm.trans hvalue'')
    obtain rfl := Option.some.inj (hobj.symm.trans hobj')
    rw [List.getElem?_map, hguid, Option.map_some, hdigest]

end Moved

/-! ### The whole document -/

theorem readOptional_eq_some {α : Type} {read : List JsonValue → Except CompileError α}
    {array : Option (List JsonValue)} {a : α} (h : readOptional read array = .ok (some a)) :
    ∃ values, array = some values ∧ read values = .ok a := by
  cases array with
  | none => cases h
  | some values =>
      obtain ⟨b, hb, h⟩ := Checked.bind_eq_ok.mp h
      obtain rfl := Option.some.inj (Except.ok.inj h)
      exact ⟨values, rfl, hb⟩

/-- An array that need not be there, compared with the document. -/
theorem readOptional_eq_ok {α β : Type} {read : List JsonValue → Except CompileError α}
    {array : Option (List JsonValue)} {result : Option α} {val : α → List β} {spec : JsonValue → β}
    (hread : ∀ values a, array = some values → read values = .ok a → val a = values.map spec)
    (h : readOptional read array = .ok result) : (result.map val).getD [] = (array.getD []).map spec := by
  cases result with
  | none =>
      cases array with
      | none => rfl
      | some values =>
          obtain ⟨a, -, h⟩ := Checked.bind_eq_ok.mp h
          cases h
  | some a =>
      obtain ⟨values, rfl, ha⟩ := readOptional_eq_some h
      exact hread values a rfl ha

theorem readFileSignatures_eq_ok (env : DagEnv) {values : List JsonValue} {paths : List CString}
    (h : values.mapM readFileSignature = .ok paths) :
    paths.map (fun path => (some path, env.fileTimestamp path)) =
      values.map fun value => (findIn value "File", ((findIn value "File").map env.fileTimestamp).getD 0) := by
  refine (Checked.map_eq_map (Checked.mapM_eq_ok.mp h) fun value _ path hpath => ?_).symm
  obtain ⟨sig, hsig, hpath⟩ := Checked.bind_eq_ok.mp hpath
  rw [findIn, require_eq_ok.mp hsig, Option.bind_some, require_eq_ok.mp hpath, Option.map_some, Option.getD_some]

theorem map_filterMap_asObject {values : List JsonValue} (hobjects : ∀ value ∈ values, value.asObject ≠ none)
    (key : String) :
    (values.filterMap JsonValue.asObject).map
    (fun obj => findStringValue obj key) = values.map fun value => findIn value key := by
  induction values with
  | nil => rfl
  | cons value values ih =>
      obtain ⟨obj, hobj⟩ := Option.ne_none_iff_exists'.mp (hobjects value List.mem_cons_self)
      have htail := ih fun value hvalue => hobjects value (List.mem_cons_of_mem _ hvalue)
      rw [List.filterMap_cons_some hobj, List.map_cons, List.map_cons, htail, findIn, hobj, Option.bind_some]

theorem readGlobSignatures_eq_ok {values : List JsonValue} {globs : GlobArray}
    (hsane : ∀ value ∈ values, value.asObject ≠ none) (h : readGlobSignatures values = .ok globs) :
    globs.paths.map some = values.map (fun value => findIn value "Path") ∧ globs.paths.length = globs.count := by
  obtain ⟨paths, hpaths, h⟩ := Checked.bind_eq_ok.mp h
  obtain rfl := Except.ok.inj h
  have hread : (values.filterMap JsonValue.asObject).map (fun sig => findStringValue sig "Path") = paths.map some :=
    Checked.map_eq_map (Checked.mapM_eq_ok.mp hpaths) fun sig _ path hpath => require_eq_ok.mp hpath
  have hmap := hread.symm.trans (map_filterMap_asObject hsane "Path")
  refine ⟨hmap, ?_⟩
  simpa using congrArg List.length hmap

theorem readExtensions_eq_ok {values : List JsonValue} {exts : List CString}
    (h : values.mapM readExtension = .ok exts) :
    exts.map (fun ext => some (djb2HashPath ext)) = values.map fun value => value.asString.map djb2HashPath := by
  refine (Checked.map_eq_map (Checked.mapM_eq_ok.mp h) fun value _ ext hext => ?_).symm
  obtain ⟨str, hstr, hext⟩ := Checked.bind_eq_ok.mp hext
  split_ifs at hext
  obtain rfl := Except.ok.inj hext
  rw [require_eq_ok.mp hstr, Option.map_some]

theorem readDag_eq_ok (env : DagEnv) {root : JsonObject} (hsane : SaneDocument root) {dag : DagFields}
    (h : readDag root = .ok dag) :
    dag.Complete ∧ (dag.guidTable.length < 2 ^ 31 →
    EncodesDag env root (remapTable dag.guidTable) (frozenDag env dag)) := by
  have hread := dagRead h
  obtain ⟨hcomplete, hlength, hencodes⟩ := readNodes_eq_ok env rfl hread.guids hread.scanners hsane hread.nodes
  refine ⟨⟨hcomplete, hlength, fun g hg => ?_, hread.fileNames ▸ rfl⟩, fun hcount => ?_⟩
  · obtain ⟨values, hvalues, hglobs⟩ := readOptional_eq_some (hg ▸ hread.globSignatures)
    exact (readGlobSignatures_eq_ok (fun value hvalue => hsane.globSignatures value (by rwa [arrayOf, hvalues]))
      hglobs).2
  have hcount : (arrayOf root "Nodes").length < 2 ^ 31 := hread.guids.length_eq ▸ hcount
  exact {
    permutation := hread.guids.bijOn_remapTable
    ascending := List.pairwise_map.mpr hread.guids.ascending
    guids_length := by rw [← hread.guids.length_eq]; exact List.length_map _
    nodes_length := by rw [← hread.guids.length_eq, ← hlength]; exact List.length_map _
    nodes := fun i value hvalue => by
      obtain ⟨node, fields', hobj, hget, hdigest, hnode⟩ := hencodes i value hvalue hcount
      refine ⟨node, _, hobj, ?_, by rw [← NodeParts.hashedBytes_eq, ← nodeDigest_eq, ← hdigest]; rfl, hnode⟩
      show (dag.nodes.map (frozenNode env dag.scanners))[_]? = _
      rw [List.getElem?_map, hget, Option.map_some]
    passes := mapM_getString_eq_ok hread.passes
    setup := readSetup_eq_ok hread.guids hcount hread.setup
    fileSignatures := by
      rw [arrayOf, ← readOptional_eq_ok (fun values paths _ h => readFileSignatures_eq_ok env h) hread.fileSignatures,
        frozenDag]
      cases dag.fileSignatures with
      | none => rfl
      | some files => exact List.map_map
    globSignatures := by
      have hglobs := readOptional_eq_ok (fun values g hvalues h => (readGlobSignatures_eq_ok (fun value hvalue =>
        hsane.globSignatures value (by rwa [arrayOf, hvalues])) h).1) hread.globSignatures
      have hmap := congrArg (List.map (Option.map fun path => (path, env.globSignature path))) hglobs
      rw [List.map_map] at hmap
      refine Eq.trans ?_ hmap
      rw [frozenDag]
      cases dag.globSignatures with
      | none => rfl
      | some globs => simp only [Option.map_some, Option.getD_some, List.map_map, Function.comp_def]
    extensions := by
      rw [arrayOf, ← readOptional_eq_ok (fun values exts _ h => readExtensions_eq_ok h) hread.extensions, frozenDag]
      cases dag.contentDigestExtensions with
      | none => rfl
      | some exts => exact List.map_map
    maxExpensiveCount := encodesInt_iff.mpr hread.maxExpensiveCount
    fileNames := hread.fileNames }

end Tundra
