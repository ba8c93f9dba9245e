import Tundra.Front.Depgraph
import Tundra.PathUtil
import Tundra.Json
import Tundra.Lib.Checked

/-!
# Saving the DAG

`dagsave.lua`: the nodes get their indices, the passes that are used are sorted by their build order and
numbered, the nodes that write a file become dependencies of the nodes that read it, and everything is written
as a JSON document. Where the source raises an error, or the program ends, there is no document.

`table.sort` is not stable, and passes may have the same build order; the sort is a parameter, of which only
what its documentation says is known.
-/

namespace Tundra.Front

/-- What `native` says about the host. -/
structure Host where
  /-- `native.getcwd() .. SEP`. -/
  cwd : CString
  /-- `native.host_platform`. -/
  platform : CString

/-- `PathType::kNative`. -/
def Host.pathType (host : Host) : PathType := if host.platform = .lit "windows" then .windows else .unix

/-- The file names of the host are the same in upper and lower case. -/
def Host.foldsCase (host : Host) : Bool := host.platform = .lit "windows" || host.platform = .lit "macosx"

/-- `str:lower()`. -/
def lower (s : CString) : CString :=
  ⟨s.bytes.map fun c => if 65 ≤ c ∧ c ≤ 90 then c + 32 else c, fun h => by
    obtain ⟨c, hc, hzero⟩ := List.mem_map.mp h
    split_ifs at hzero with hletter
    · have hnat := congrArg UInt8.toNat hzero
      have hlo := UInt8.le_iff_toNat_le.mp hletter.1
      have hhi := UInt8.le_iff_toNat_le.mp hletter.2
      simp at hnat hlo hhi
      omega
    · exact s.noNul (hzero ▸ hc)⟩

/-- The key of a file name in `producers`: the name with the current directory in front of it unless it is absolute. -/
def Host.key (host : Host) (isAbsolute : Bool) (file : CString) : CString :=
  let full := if isAbsolute then file else host.cwd ++ file
  if host.foldsCase then lower full else full

/-- How `setup_input_deps` ends if it does not return. -/
inductive SetupError where
  /-- An error of the script. -/
  | raised
  /-- `PathInit` ends the program. -/
  | croak
deriving DecidableEq

/-- The key that `setup_input_deps` works out: `path.is_absolute` takes the name apart, and not every name fits
a `PathBuffer`. -/
def Host.producerKey (host : Host) (file : CString) : Except SetupError CString :=
  match pathInit file host.pathType with
  | none => .error .croak
  | some pbuf => .ok (host.key pbuf.absolute file)

def Host.fileKey (host : Host) (file : CString) : CString := host.key (pathRoot file host.pathType).1 file

/-- What is known about `table.sort(result, function (a, b) return a.BuildOrder < b.BuildOrder end)`. -/
structure TableSort (passes : Nat → Pass) where
  sort : List PassRef → List PassRef
  perm : ∀ refs, (sort refs).Perm refs
  sorted : ∀ refs, (sort refs).Pairwise fun a b => ¬ (b.get passes).buildOrder < (a.get passes).buildOrder

/-- `get_passes`: the passes that are used. The index of a pass is its place in this list. -/
def getPasses {passes : Nat → Pass} (table : TableSort passes) (nodes : List Node) : List PassRef :=
  table.sort (uniq (nodes.map Node.pass))

/-- One turn of the first loop of `setup_input_deps`. It is an error to write a file twice. -/
def recordProducer (host : Host) (index : Nat) (producers : List (CString × Nat)) (output : CString) :
    Except SetupError (List (CString × Nat)) := do
  let key ← host.producerKey output
  if (producers.lookup key).isSome then .error .raised else .ok ((key, index) :: producers)

/-- The first loop of `setup_input_deps`: the producers of all output files. -/
def recordProducers (host : Host) (nodes : List Node) : Except SetupError (List (CString × Nat)) :=
  nodes.zipIdx.foldlM (fun producers (node, index) => node.outputs.foldlM (recordProducer host index) producers) []

/-- One turn of the second loop of `setup_input_deps`. -/
def addProducer (host : Host) (producers : List (CString × Nat)) (deps : List Nat) (input : CString) :
    Except SetupError (List Nat) := do
  let key ← host.producerKey input
  match producers.lookup key with
  | some producer => return if producer ∈ deps then deps else deps ++ [producer]
  | none => return deps

/-- The second loop of `setup_input_deps`, for one node. -/
def addProducers (host : Host) (producers : List (CString × Nat)) (node : Node) : Except SetupError Node := do
  return { node with deps := ← node.inputs.foldlM (addProducer host producers) node.deps }

def setupInputDeps (host : Host) (nodes : List Node) : Except SetupError (List Node) := do
  let producers ← recordProducers host nodes
  nodes.mapM (addProducers host producers)

/-- The pass of the node with this index. -/
def passAt (nodes : List Node) (index : Nat) : PassRef := (nodes[index]?.map Node.pass).getD .default

def checkDeps (passes : Nat → Pass) (nodes : List Node) : Bool :=
  nodes.all fun node => node.deps.all fun dep =>
    ¬ ((passAt nodes dep).get passes).buildOrder > (node.pass.get passes).buildOrder

/-- A scanner, made by `scanner.lua`. -/
structure ScannerDecl where
  kind : CString
  paths : List CString
  requireWhitespace : Bool
  useSeparators : Bool
  bareMeansSystem : Bool
  keywords : List CString
  keywordsNoFollow : List CString

/-- One of the `bindings`: a build tuple with its nodes. -/
structure Binding where
  config : CString
  defaultOnHost : Option CString
  variant : CString
  subVariant : CString
  alwaysNodes : List Nat
  defaultNodes : List Nat
  namedNodes : List (CString × Nat)

/-- The rest of what `save_dag_data` writes. -/
structure SaveArgs where
  bindings : List Binding
  defaultVariant : Option CString
  defaultSubvariant : Option CString
  contentDigestExts : List CString
  maxExpensiveJobs : Option Rat
  accessedFiles : List CString
  globs : List CString
  scanners : Nat → ScannerDecl

def getScanners (nodes : List Node) : List Nat := uniq (nodes.filterMap Node.scanner)

section Json

def member (name : String) (value : JsonValue) : CString × JsonValue := (.lit name, value)

def strings (list : List CString) : JsonValue := .array (list.map .string)

def indices (list : List Nat) : JsonValue := .array (list.map fun index : Nat => .number index)

/-- A list that is only written if there is something in it. -/
def nonEmpty (name : String) {α : Type} (list : List α) (value : JsonValue) :
    JsonObject := if list = [] then [] else [member name value]

/-- A flag that is only written if it is set. -/
def ifSet (name : String) (flag : Bool) : JsonObject := if flag then [member name (.boolean true)] else []

/-- One node of `save_nodes`. -/
def saveNode (passToIndex : List PassRef) (scannerToIndex : List Nat) (node : Node) : JsonValue :=
  .object ([member "Action" (.string node.action)] ++
    (node.preaction.toList.map fun preaction => member "PreAction" (.string preaction)) ++
    [member "Annotation" (.string node.annotation), member "PassIndex" (.number (passToIndex.idxOf node.pass))] ++
    nonEmpty "Deps" node.deps (indices node.deps) ++
    nonEmpty "Inputs" node.inputs (strings node.inputs) ++
    nonEmpty "Outputs" node.outputs (strings node.outputs) ++
    nonEmpty "AuxOutputs" node.auxOutputs (strings node.auxOutputs) ++
    nonEmpty "Env" node.env (.array (node.env.map fun (key, value) =>
      .object [member "Key" (.string key), member "Value" (.string value)])) ++
    (node.scanner.toList.map fun scanner => member "ScannerIndex" (.number (scannerToIndex.idxOf scanner))) ++
    ifSet "OverwriteOutputs" node.overwriteOutputs ++
    ifSet "PreciousOutputs" node.isPrecious ++
    ifSet "Expensive" node.expensive)

def saveNodes (passToIndex : List PassRef) (scannerToIndex : List Nat) (nodes : List Node) : JsonValue :=
  .array (nodes.map (saveNode passToIndex scannerToIndex))

def savePasses (passes : Nat → Pass) (refs : List PassRef) :
    JsonValue := strings (refs.map fun ref => (ref.get passes).name)

def saveScanners (scanners : List ScannerDecl) : JsonValue :=
  .array (scanners.map fun s =>
    .object ([member "Kind" (.string s.kind), member "IncludePaths" (strings s.paths)] ++
      if s.kind = .lit "generic" then
        [member "RequireWhitespace" (.boolean s.requireWhitespace), member "UseSeparators" (.boolean s.useSeparators),
          member "BareMeansSystem" (.boolean s.bareMeansSystem), member "Keywords" (strings s.keywords),
          member "KeywordsNoFollow" (strings s.keywordsNoFollow)]
      else []))

def defaultIndex (names : List CString) : Option CString → Option Rat
  | some name => if name ∈ names then some (names.idxOf name) else none
  | none => some (-1)

def saveConfigs (host : Host) (args : SaveArgs) : Option JsonValue := do
  let configs := uniq (args.bindings.map Binding.config)
  let variants := uniq (args.bindings.map Binding.variant)
  let subvariants := uniq (args.bindings.map Binding.subVariant)
  if args.bindings = [] then none
  let defaultConfig := (args.bindings.filter fun b => b.defaultOnHost = some host.platform).getLast?.map Binding.config
  let configIndex ← defaultIndex configs defaultConfig
  let variantIndex ← defaultIndex variants args.defaultVariant
  let subvariantIndex ← defaultIndex subvariants args.defaultSubvariant
  return .object [
    member "Configs" (strings configs), member "Variants" (strings variants),
      member "SubVariants" (strings subvariants),
    member "BuildTuples" (.array (args.bindings.map fun b => .object [
      member "ConfigIndex" (.number (configs.idxOf b.config)),
        member "VariantIndex" (.number (variants.idxOf b.variant)),
      member "SubVariantIndex" (.number (subvariants.idxOf b.subVariant)),
      member "AlwaysNodes" (indices b.alwaysNodes), member "DefaultNodes" (indices b.defaultNodes),
      member "NamedNodes" (.object (b.namedNodes.map fun named : CString × Nat => (named.1, .number named.2)))])),
    member "DefaultBuildTuple" (.object [
      member "ConfigIndex" (.number configIndex), member "VariantIndex" (.number variantIndex),
      member "SubVariantIndex" (.number subvariantIndex)])]

end Json

/-- What `save_dag_data` writes once everything has been checked. -/
def writeDocument (passes : Nat → Pass) (args : SaveArgs) (passToIndex : List PassRef) (setup : JsonValue)
    (nodes : List Node) : JsonObject :=
  let scannerToIndex := getScanners nodes
  [member "Setup" setup, member "Passes" (savePasses passes passToIndex),
    member "Scanners" (saveScanners (scannerToIndex.map args.scanners)),
    member "Nodes" (saveNodes passToIndex scannerToIndex nodes),
    member "FileSignatures" (.array (args.accessedFiles.map fun file => .object [member "File" (.string file)])),
    member "GlobSignatures" (.array (args.globs.map fun path => .object [member "Path" (.string path)]))] ++
    nonEmpty "ContentDigestExtensions" args.contentDigestExts (strings args.contentDigestExts) ++
    [member "MaxExpensiveCount" (.number (args.maxExpensiveJobs.getD (-1)))]

def saveDagData {passes : Nat → Pass} (table : TableSort passes) (host : Host) (args : SaveArgs) (nodes : List Node) :
    Option JsonObject := do
  let passToIndex := getPasses table nodes
  let nodes ← (setupInputDeps host nodes).toOption
  let setup ← saveConfigs host args
  if checkDeps passes nodes then some (writeDocument passes args passToIndex setup nodes) else none

end Tundra.Front
