import Tundra.DagGenerator.Write

/-!
# Loading the DAG

The frozen data of `DagData.hpp` as `LoadFrozenData<DagData>` and its users read them. A string or an array is
read through its pointer, so a loaded value says nothing about where it was.
-/

namespace Tundra

open Bytes

/-- A `FrozenString` that may be null. -/
def loadString (image : List UInt8) (p : Nat) : Option (Option CString) := do
  match ← readPtr image p with
  | none => return none
  | some _ => return some (← readFrozenString image p)

/-- `KeywordData` in the file. -/
structure FrozenKeyword where
  string : CString
  stringLength : Int16
  shouldFollow : Bool
deriving DecidableEq

def loadKeyword (image : List UInt8) (p : Nat) : Option FrozenKeyword := do
  let string ← readFrozenString image p
  let stringLength ← read image (p + 4) 2
  let shouldFollow ← read image (p + 6) 2
  return ⟨string, .ofNat (ofLE stringLength), shouldFollow.head? ≠ some 0⟩

/-- `ScannerData` in the file, with the fields of `GenericScannerData` if it has that type. -/
structure FrozenScanner where
  scannerType : Int32
  includePaths : List CString
  scannerGuid : HashDigest
  generic : Option (UInt32 × List FrozenKeyword)
deriving DecidableEq

def loadScanner (image : List UInt8) (p : Nat) : Option FrozenScanner := do
  let scannerType ← readInt32 image p
  let includePaths ← readFrozenArray 4 readFrozenString image (p + 4)
  let scannerGuid ← readDigest image (p + 12)
  if scannerType = 1 then
    let flags ← readUint32 image (p + 28)
    let keywords ← readFrozenArray 8 loadKeyword image (p + 32)
    return ⟨scannerType, includePaths, scannerGuid, some (flags, keywords)⟩
  else return ⟨scannerType, includePaths, scannerGuid, none⟩

def loadEnvVar (image : List UInt8) (p : Nat) : Option EnvVarData := do
  let name ← readFrozenString image p
  let value ← readFrozenString image (p + 4)
  return ⟨name, value⟩

/-- `m_Scanner` of a node, with the scanner behind it. -/
def loadScannerPtr (image : List UInt8) (p : Nat) : Option (Option FrozenScanner) := do
  match ← readPtr image p with
  | none => return none
  | some target => return some (← loadScanner image target)

/-- `NodeData` in the file. -/
structure FrozenNode where
  action : Option CString
  preAction : Option CString
  annotation : Option CString
  passIndex : Int32
  dependencies : List Int32
  backLinks : List Int32
  inputFiles : List FileAndHash
  outputFiles : List FileAndHash
  auxOutputFiles : List FileAndHash
  envVars : List EnvVarData
  scanner : Option FrozenScanner
  flags : UInt32
deriving DecidableEq

def loadNode (image : List UInt8) (p : Nat) : Option FrozenNode := do
  let action ← loadString image p
  let preAction ← loadString image (p + 4)
  let annotation ← loadString image (p + 8)
  let passIndex ← readInt32 image (p + 12)
  let dependencies ← readFrozenArray 4 readInt32 image (p + 16)
  let backLinks ← readFrozenArray 4 readInt32 image (p + 24)
  let inputFiles ← readFrozenArray 8 readFileAndHash image (p + 32)
  let outputFiles ← readFrozenArray 8 readFileAndHash image (p + 40)
  let auxOutputFiles ← readFrozenArray 8 readFileAndHash image (p + 48)
  let envVars ← readFrozenArray 8 loadEnvVar image (p + 56)
  let scanner ← loadScannerPtr image (p + 64)
  let flags ← readUint32 image (p + 68)
  return ⟨action, preAction, annotation, passIndex, dependencies, backLinks, inputFiles, outputFiles, auxOutputFiles,
    envVars, scanner, flags⟩

def loadNamedNode (image : List UInt8) (p : Nat) : Option (CString × Int32) := do
  let name ← readFrozenString image p
  let nodeIndex ← readInt32 image (p + 4)
  return (name, nodeIndex)

/-- `BuildTupleData` in the file. -/
structure FrozenTuple where
  configIndex : Int32
  variantIndex : Int32
  subVariantIndex : Int32
  defaultNodes : List Int32
  alwaysNodes : List Int32
  namedNodes : List (CString × Int32)
deriving DecidableEq

def loadTuple (image : List UInt8) (p : Nat) : Option FrozenTuple := do
  let configIndex ← readInt32 image p
  let variantIndex ← readInt32 image (p + 4)
  let subVariantIndex ← readInt32 image (p + 8)
  let defaultNodes ← readFrozenArray 4 readInt32 image (p + 12)
  let alwaysNodes ← readFrozenArray 4 readInt32 image (p + 20)
  let namedNodes ← readFrozenArray 8 loadNamedNode image (p + 28)
  return ⟨configIndex, variantIndex, subVariantIndex, defaultNodes, alwaysNodes, namedNodes⟩

/-- Two arrays behind one count, as the nodes with their guids and the names with their hashes are. -/
def readTwoArrays {α β : Type} (size : Nat) (elem : List UInt8 → Nat → Option α) (size' : Nat)
    (elem' : List UInt8 → Nat → Option β) (image : List UInt8) (p : Nat) : Option (List α × List β) := do
  let count ← readInt32 image p
  let array ← readPtr image (p + 4)
  let array' ← readPtr image (p + 8)
  let values ← readElems size elem image count.toInt.toNat array
  let values' ← readElems size' elem' image count.toInt.toNat array'
  return (values, values')

/-- The names of the configs, variants or subvariants with their hashes. -/
def loadNames : List UInt8 → Nat → Option (List CString × List UInt32) := readTwoArrays 4 readFrozenString 4 readUint32

/-- The configs, variants and subvariants, the build tuples and the default one. -/
structure FrozenSetup where
  configs : List CString × List UInt32
  variants : List CString × List UInt32
  subVariants : List CString × List UInt32
  buildTuples : List FrozenTuple
  defaultConfigIndex : Int32
  defaultVariantIndex : Int32
  defaultSubVariantIndex : Int32
deriving DecidableEq

def loadSetup (image : List UInt8) (p : Nat) : Option FrozenSetup := do
  let configs ← loadNames image p
  let variants ← loadNames image (p + 12)
  let subVariants ← loadNames image (p + 24)
  let buildTuples ← readFrozenArray 36 loadTuple image (p + 36)
  let defaultConfigIndex ← readInt32 image (p + 44)
  let defaultVariantIndex ← readInt32 image (p + 48)
  let defaultSubVariantIndex ← readInt32 image (p + 52)
  return ⟨configs, variants, subVariants, buildTuples, defaultConfigIndex, defaultVariantIndex, defaultSubVariantIndex⟩

/-- `DagFileSignature` in the file. -/
def loadFileSignature (image : List UInt8) (p : Nat) : Option (CString × UInt64) := do
  let path ← readFrozenString image p
  let timestamp ← readUint64 image (p + 8)
  return (path, timestamp)

/-- `DagGlobSignature` in the file. -/
def loadGlobSignature (image : List UInt8) (p : Nat) : Option (CString × HashDigest) := do
  let path ← readFrozenString image p
  let digest ← readDigest image (p + 4)
  return (path, digest)

/-- `DagData` in the file. -/
structure FrozenDag where
  nodeGuids : List HashDigest
  nodes : List FrozenNode
  passes : List CString
  setup : FrozenSetup
  fileSignatures : List (CString × UInt64)
  globSignatures : List (CString × HashDigest)
  shaExtensionHashes : List UInt32
  maxExpensiveCount : Int32
  fileNames : List CString
deriving DecidableEq

/-- `DagData` with everything it leads to. The names of the state file, the scan cache and the digest cache
stand at its end. -/
def loadDag (image : List UInt8) (p : Nat) : Option FrozenDag := do
  let magicNumber ← readUint32 image p
  if magicNumber ≠ dagDataMagicNumber then none
  let (nodeGuids, nodes) ← readTwoArrays 16 readDigest 72 loadNode image (p + 4)
  let passes ← readFrozenArray 4 readFrozenString image (p + 16)
  let setup ← loadSetup image (p + 24)
  let fileSignatures ← readFrozenArray 16 loadFileSignature image (p + 80)
  let globSignatures ← readFrozenArray 20 loadGlobSignature image (p + 88)
  let shaExtensionHashes ← readFrozenArray 4 readUint32 image (p + 96)
  let maxExpensiveCount ← readInt32 image (p + 104)
  let fileNames ← readElems 4 readFrozenString image 6 (some (p + 108))
  return ⟨nodeGuids, nodes, passes, setup, fileSignatures, globSignatures, shaExtensionHashes, maxExpensiveCount,
    fileNames⟩

/-- `LoadFrozenData<DagData>`. -/
def loadDagData (image : List UInt8) : Option FrozenDag := if image.length < 132 then none else loadDag image 0

end Tundra
