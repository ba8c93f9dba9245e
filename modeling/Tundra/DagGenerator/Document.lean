import Tundra.Json
import Tundra.Dag
import Tundra.Hash
import Tundra.PathUtil
import Tundra.Lib.Checked
import Mathlib.Data.List.Sort

/-!
# Reading a DAG document

The part of `DagGenerator.cpp` that looks at the document: what `CompileDag` and the functions it calls take
from it, and which of it they check. In the source the checks stand between the writes. A failed check throws
away everything that was written, so here all checks come first, in the order of the source, and the writes
follow in `DagGenerator.Write`.

A check that fails makes `CompileDag` return false. Some values are used without a check: an index that is out
of range is read from an array all the same, and a value that is not a string is taken for one.
-/

namespace Tundra

/-- Why `CompileDag` does not get to the end. -/
inductive CompileError where
  /-- It returns false. -/
  | invalid
  /-- `remap_table` or `scanner_ptrs` is read outside of its bounds. -/
  | outOfBounds
  /-- A null pointer is used as a string. -/
  | nullString
  /-- A path does not fit into a `PathBuffer`, which ends the program. -/
  | croak
deriving DecidableEq

/-- A value that is checked. -/
def require {α : Type} : Option α → Except CompileError α
  | some a => .ok a
  | none => .error .invalid

section Find

variable (obj : JsonObject) (key : String)

def findStringValue : Option CString := (obj.find (.lit key)).bind JsonValue.asString

def findArrayValue : Option (List JsonValue) := (obj.find (.lit key)).bind JsonValue.asArray

def findObjectValue : Option JsonObject := (obj.find (.lit key)).bind JsonValue.asObject

/-- `FindIntValue`, cut to an `int`. -/
def findIntValue (defValue : Int64) :
    Int32 := ((((obj.find (.lit key)).bind JsonValue.asNumber).map doubleToInt64).getD defValue).toInt32

def getBoolean : Bool := ((obj.find (.lit key)).bind JsonValue.asBoolean).getD false

def getNodeFlag (value : UInt32) : UInt32 := if getBoolean obj key then value else 0

end Find

/-- An array that has elements, the opposite of `EmptyArray`. -/
def nonEmptyArray : Option (List JsonValue) → Option (List JsonValue)
  | some (value :: values) => some (value :: values)
  | _ => none

/-- A string that is used without a check. -/
def notNull : Option CString → Except CompileError CString
  | some s => .ok s
  | none => .error .nullString

def getString (value : JsonValue) : Except CompileError CString := notNull value.asString

/-- A check of an array that need not be there. -/
def readOptional {α : Type} (read : List JsonValue → Except CompileError α) :
    Option (List JsonValue) → Except CompileError (Option α)
  | none => .ok none
  | some values => do return some (← read values)

/-! ### Scanners -/

/-- What `write_kws` takes from an array of keywords. -/
def readKeywords (shouldFollow : Bool) (array : Option (List JsonValue)) : Except CompileError (List KeywordData) :=
  (array.getD []).mapM fun value => do
    let string ← require value.asString
    return ⟨string, shouldFollow⟩

/-- What `WriteScanner` takes from the description of a scanner. -/
def readScanner (value : JsonValue) : Except CompileError ScannerData := do
  let data ← require value.asObject
  let kind ← require (findStringValue data "Kind")
  let incpaths ← require (findArrayValue data "IncludePaths")
  if kind = .lit "cpp" then
    let includePaths ← incpaths.mapM getString
    return ⟨.cpp, includePaths, hashFinalize (((kind :: includePaths).map CString.bytes).foldl hashUpdate hashInit)⟩
  else if kind = .lit "generic" then
    let includePaths ← incpaths.mapM getString
    let follow ← readKeywords true (findArrayValue data "Keywords")
    let nofollow ← readKeywords false (findArrayValue data "KeywordsNoFollow")
    return ⟨.generic (getBoolean data "RequireWhitespace") (getBoolean data "UseSeparators")
      (getBoolean data "BareMeansSystem") (follow ++ nofollow),
      includePaths, hashFinalize (((kind :: includePaths).map CString.bytes).foldl hashUpdate hashInit)⟩
  else .error .invalid

/-! ### Node guids -/

structure TempNodeGuid where
  digest : HashDigest
  node : Nat
deriving DecidableEq

/-- The digest of a node in `ComputeNodeGuids`. -/
def nodeDigest (nobj : JsonObject) : HashDigest :=
  let action := (findStringValue nobj "Action").toList.filter fun action => action.bytes ≠ []
  let inputs := ((findArrayValue nobj "Inputs").getD []).filterMap JsonValue.asString
  let annotation := (findStringValue nobj "Annotation").toList
  hashFinalize (((action ++ inputs ++ annotation).map CString.bytes).foldl hashUpdate hashInit)

/-- One turn of the first loop of `ComputeNodeGuids`. A node must have an action that is not empty, inputs or an
annotation. -/
def readNodeGuid (entry : JsonValue × Nat) : Except CompileError TempNodeGuid := do
  let nobj ← require entry.1.asObject
  let action := (findStringValue nobj "Action").getD .empty
  if action.bytes = [] ∧ findArrayValue nobj "Inputs" = none ∧ findStringValue nobj "Annotation" = none then
    .error .invalid
  else return ⟨nodeDigest nobj, entry.2⟩

/-- The `std::sort` of `ComputeNodeGuids`. -/
def sortGuids (guids : List TempNodeGuid) : List TempNodeGuid := guids.insertionSort fun l r => l.digest ≤ r.digest

def computeNodeGuids (nodes : List JsonValue) : Except CompileError (List TempNodeGuid) := do
  let guids ← nodes.zipIdx.mapM readNodeGuid
  let guidTable := sortGuids guids
  if (guidTable.zip guidTable.tail).any fun (l, r) => l.digest = r.digest then .error .invalid else return guidTable

/-- `remap_table`, which `ComputeNodeGuids` fills from the guid table: the place of a node among the sorted ones. -/
def remapTable (guidTable : List TempNodeGuid) (node : Nat) : Nat := (guidTable.map TempNodeGuid.node).idxOf node

/-- An element of `remap_table`. -/
def remapped (guidTable : List TempNodeGuid) (index : Int32) : Except CompileError Nat :=
  if 0 ≤ index.toInt ∧ index.toInt < guidTable.length then .ok (remapTable guidTable index.toInt.toNat)
    else .error .outOfBounds

/-! ### Nodes -/

/-- What the first loop of `WriteNodes` makes of an element of `Deps`. -/
def readDep (nodeCount : Nat) (value : JsonValue) : Except CompileError Nat := do
  let number ← require value.asNumber
  let index := doubleToInt32 number
  if index.toInt < 0 ∨ index.toInt ≥ nodeCount then .error .invalid else return index.toInt.toNat

/-- The `Deps` of a node. -/
def readDeps (nodeCount : Nat) (value : JsonValue) : Except CompileError (Option (List Nat)) := do
  let node ← require value.asObject
  readOptional (List.mapM (readDep nodeCount)) (findArrayValue node "Deps")

/-- `m_Links` of a node: a node is in it once for each time it lists the node among its dependencies. -/
def backLinks (deps : List (Option (List Nat))) (node : Nat) : List Nat :=
  deps.zipIdx.flatMap fun (deps, i) => ((deps.getD []).filter (· = node)).map fun _ => i

/-- What `WriteFileArray` writes: the number of elements of the array, and the files up to the first element
that is not a string. -/
structure FileArray where
  count : Nat
  files : List FileAndHash

/-- The loop of `WriteFileArray`. -/
def readFiles : List JsonValue → Except CompileError (List FileAndHash)
  | [] => .ok []
  | value :: values =>
      match value.asString with
      | none => .ok []
      | some path =>
          match (pathInit path .unix).bind pathFormat with
          | none => .error .croak
          | some cleanedPath => do
              let files ← readFiles values
              return ⟨cleanedPath, djb2HashPath cleanedPath⟩ :: files

/-- What `WriteFileArray` takes from an array. -/
def readFileArray (files : Option (List JsonValue)) : Except CompileError FileArray := do
  let values := files.getD []
  return ⟨values.length, ← readFiles values⟩

/-- A member of an object, or of anything else, which has none. -/
def findIn (value : JsonValue) (key : String) : Option CString := value.asObject.bind fun obj => findStringValue obj key

def readEnvVar (entry : JsonValue) : Except CompileError EnvVarData := do
  let key ← require (findIn entry "Key")
  let value ← require (findIn entry "Value")
  return ⟨key, value⟩

/-- What the second loop of `WriteNodes` writes for a node. -/
structure NodeFields where
  action : Option CString
  preaction : Option CString
  annotation : CString
  passIndex : Int32
  deps : Option (List Nat)
  backLinks : List Nat
  inputs : FileArray
  outputs : FileArray
  auxOutputs : FileArray
  envVars : List EnvVarData
  scannerIndex : Option Nat
  flags : UInt32

/-- The index of a node's scanner, which is not checked. -/
def readScannerIndex (scannerCount : Nat) (index : Int32) : Except CompileError (Option Nat) :=
  if index = -1 then .ok none
  else if 0 ≤ index.toInt ∧ index.toInt < scannerCount then .ok (some index.toInt.toNat)
  else .error .outOfBounds

/-- One turn of the second loop of `WriteNodes`, for the node at this index with these dependencies and back links. -/
def readNode (scannerCount : Nat) (guidTable : List TempNodeGuid) (value : JsonValue) (deps : Option (List Nat))
    (links : List Nat) :
    Except CompileError NodeFields := do
  let node ← require value.asObject
  let annotation ← notNull (findStringValue node "Annotation")
  let inputs ← readFileArray (findArrayValue node "Inputs")
  let outputs ← readFileArray (findArrayValue node "Outputs")
  let auxOutputs ← readFileArray (findArrayValue node "AuxOutputs")
  let envVars ← ((findArrayValue node "Env").getD []).mapM readEnvVar
  let scannerIndex ← readScannerIndex scannerCount (findIntValue node "ScannerIndex" (-1))
  return {
    action := findStringValue node "Action"
    preaction := findStringValue node "PreAction"
    annotation := annotation
    passIndex := findIntValue node "PassIndex" 0
    deps := deps.map fun deps => deps.map (remapTable guidTable)
    backLinks := links.map (remapTable guidTable)
    inputs := inputs
    outputs := outputs
    auxOutputs := auxOutputs
    envVars := envVars
    scannerIndex := scannerIndex
    flags := getNodeFlag node "OverwriteOutputs" 1 ||| getNodeFlag node "PreciousOutputs" 2 ||| getNodeFlag node "Expensive" 4 }

/-- The checks of `WriteNodes`. The nodes come out in the order of their guids. -/
def readNodes (scannerCount : Nat) (guidTable : List TempNodeGuid) (nodes : List JsonValue) :
    Except CompileError (List NodeFields) := do
  let deps ← nodes.mapM (readDeps nodes.length)
  guidTable.mapM fun guid => readNode scannerCount guidTable (nodes.getD guid.node .null) (deps.getD guid.node none)
    (backLinks deps guid.node)

/-! ### Build tuples -/

/-- What `WriteNodeArray` makes of an element. -/
def readNodeIndex (guidTable : List TempNodeGuid) (value : JsonValue) : Except CompileError Nat := do
  let num ← require value.asNumber
  remapped guidTable (doubleToInt32 num)

/-- What is written for a build tuple. -/
structure TupleFields where
  configIndex : Int32
  variantIndex : Int32
  subVariantIndex : Int32
  defaultNodes : List Nat
  alwaysNodes : List Nat
  namedNodes : Option (List (CString × Nat))

def readNamedNode (guidTable : List TempNodeGuid) (named : CString × JsonValue) :
    Except CompileError (CString × Nat) := do
  return (named.1, ← readNodeIndex guidTable named.2)

def readNamedNodes (guidTable : List TempNodeGuid) :
    Option JsonObject → Except CompileError (Option (List (CString × Nat)))
  | none => .ok none
  | some named => do return some (← named.mapM (readNamedNode guidTable))

/-- One turn of the loop over the build tuples. -/
def readTuple (guidTable : List TempNodeGuid) (value : JsonValue) : Except CompileError TupleFields := do
  let obj ← require value.asObject
  let configIndex := findIntValue obj "ConfigIndex" (-1)
  let variantIndex := findIntValue obj "VariantIndex" (-1)
  let subVariantIndex := findIntValue obj "SubVariantIndex" (-1)
  if configIndex = -1 ∨ variantIndex = -1 ∨ subVariantIndex = -1 then .error .invalid
  let defaultNodes ← require (findArrayValue obj "DefaultNodes")
  let alwaysNodes ← require (findArrayValue obj "AlwaysNodes")
  let defaultNodes ← defaultNodes.mapM (readNodeIndex guidTable)
  let alwaysNodes ← alwaysNodes.mapM (readNodeIndex guidTable)
  let namedNodes ← readNamedNodes guidTable (findObjectValue obj "NamedNodes")
  return ⟨configIndex, variantIndex, subVariantIndex, defaultNodes, alwaysNodes, namedNodes⟩

/-- The three arrays of names and the build tuples of `Setup`. -/
structure SetupFields where
  configs : List CString
  variants : List CString
  subVariants : List CString
  tuples : List TupleFields
  defaultConfigIndex : Int32
  defaultVariantIndex : Int32
  defaultSubVariantIndex : Int32

def readSetup (guidTable : List TempNodeGuid) (root : JsonObject) : Except CompileError SetupFields := do
  let setup ← require (findObjectValue root "Setup")
  let configs ← require (nonEmptyArray (findArrayValue setup "Configs"))
  let variants ← require (nonEmptyArray (findArrayValue setup "Variants"))
  let subVariants ← require (nonEmptyArray (findArrayValue setup "SubVariants"))
  let tuples ← require (nonEmptyArray (findArrayValue setup "BuildTuples"))
  let configs ← configs.mapM getString
  let variants ← variants.mapM getString
  let subVariants ← subVariants.mapM getString
  let tuples ← tuples.mapM (readTuple guidTable)
  let defaultTuple ← require (findObjectValue setup "DefaultBuildTuple")
  let defConfigIndex := findIntValue defaultTuple "ConfigIndex" (-2)
  let defVariantIndex := findIntValue defaultTuple "VariantIndex" (-2)
  let defSubVariantIndex := findIntValue defaultTuple "SubVariantIndex" (-2)
  if defConfigIndex = -2 ∨ defVariantIndex = -2 ∨ defSubVariantIndex = -2 then .error .invalid
  return ⟨configs, variants, subVariants, tuples, defConfigIndex, defVariantIndex, defSubVariantIndex⟩

/-! ### The document -/

/-- What is written for the glob signatures: the number of elements of the array, and those that are objects. -/
structure GlobArray where
  count : Nat
  paths : List CString

def readFileSignature (value : JsonValue) : Except CompileError CString := do
  let sig ← require value.asObject
  require (findStringValue sig "File")

/-- The loop over the glob signatures, which passes over what is not an object. -/
def readGlobSignatures (values : List JsonValue) : Except CompileError GlobArray := do
  let paths ← (values.filterMap JsonValue.asObject).mapM fun sig => require (findStringValue sig "Path")
  return ⟨values.length, paths⟩

def readExtension (value : JsonValue) : Except CompileError CString := do
  let str ← require value.asString
  if str.bytes.head? = some 46 then return str else .error .invalid

/-- The names of the files the program keeps, with their defaults. -/
def fileNameMembers : List (String × String) :=
  [("StateFileName", ".tundra2.state"), ("StateFileNameTmp", ".tundra2.state.tmp"),
    ("ScanCacheFileName", ".tundra2.scancache"),
    ("ScanCacheFileNameTmp", ".tundra2.scancache.tmp"), ("DigestCacheFileName", ".tundra2.digestcache"),
    ("DigestCacheFileNameTmp", ".tundra2.digestcache.tmp")]

/-- Everything `CompileDag` writes. -/
structure DagFields where
  scanners : List ScannerData
  guidTable : List TempNodeGuid
  nodes : List NodeFields
  passes : List CString
  setup : SetupFields
  fileSignatures : Option (List CString)
  globSignatures : Option GlobArray
  contentDigestExtensions : Option (List CString)
  maxExpensiveCount : Int32
  fileNames : List CString

/-- The checks of `CompileDag`. -/
def readDag (root : JsonObject) : Except CompileError DagFields := do
  let nodes ← require (nonEmptyArray (findArrayValue root "Nodes"))
  let passes ← require (nonEmptyArray (findArrayValue root "Passes"))
  let scanners ← ((findArrayValue root "Scanners").getD []).mapM readScanner
  let guidTable ← computeNodeGuids nodes
  let nodeFields ← readNodes scanners.length guidTable nodes
  let passes ← passes.mapM getString
  let setup ← readSetup guidTable root
  let fileSignatures ← readOptional (List.mapM readFileSignature) (findArrayValue root "FileSignatures")
  let globSignatures ← readOptional readGlobSignatures (findArrayValue root "GlobSignatures")
  let contentDigestExtensions ← readOptional (List.mapM readExtension) (findArrayValue root "ContentDigestExtensions")
  return {
    scanners := scanners
    guidTable := guidTable
    nodes := nodeFields
    passes := passes
    setup := setup
    fileSignatures := fileSignatures
    globSignatures := globSignatures
    contentDigestExtensions := contentDigestExtensions
    maxExpensiveCount := findIntValue root "MaxExpensiveCount" (-1)
    fileNames := fileNameMembers.map fun (key, defaultValue) => (findStringValue root key).getD (.lit defaultValue) }

end Tundra
