import Tundra.DagGenerator.Document
import Tundra.Segments

/-!
# Writing the DAG

The part of `DagGenerator.cpp` that writes: `CompileDag` puts the DAG together in six segments. Every pointer
leads from a segment to a later one, and some strings are shared through a hash table.

The digest of a scanner is stored through a pointer into its segment that was taken before the last words of a
generic scanner were written. If the buffer of the segment moves in between, the digest misses it; what stands
in its place then is up to the allocator.
-/

namespace Tundra

/-- What `CompileDag` learns from outside of the document: the timestamps of files, the signatures of globs, and
what is in the place of a generic scanner's digest in the end. -/
structure DagEnv where
  fileTimestamp : CString → UInt64
  globSignature : CString → HashDigest
  digestSpace : HashDigest → HashDigest

/-- The segments of the writer and `shared_strings`. -/
structure DagWriter where
  segs : Segments
  sharedStrings : HashTable BinaryLocator

namespace DagWriter

@[simp] abbrev mainSeg : Nat := 0
@[simp] abbrev nodeGuidSeg : Nat := 1
@[simp] abbrev nodeDataSeg : Nat := 2
@[simp] abbrev auxSeg : Nat := 3
@[simp] abbrev aux2Seg : Nat := 4
@[simp] abbrev strSeg : Nat := 5

def init : DagWriter := ⟨.empty, .init⟩

section Values

variable (seg : Nat)

def write (data : List UInt8) (w : DagWriter) : DagWriter := { w with segs := w.segs.write seg data }

def writeInt32 (v : Int32) (w : DagWriter) : DagWriter := { w with segs := w.segs.writeInt32 seg v }

def writeUint32 (v : UInt32) (w : DagWriter) : DagWriter := { w with segs := w.segs.writeUint32 seg v }

def writeUint64 (v : UInt64) (w : DagWriter) : DagWriter := { w with segs := w.segs.writeUint64 seg v }

def writePointer (locator : BinaryLocator) (w : DagWriter) :
    DagWriter := { w with segs := w.segs.writePointer seg locator }

def writeNullPointer (w : DagWriter) : DagWriter := { w with segs := w.segs.writeNullPointer seg }

def align (alignment : Nat) (w : DagWriter) : DagWriter := { w with segs := w.segs.align seg alignment }

/-- A pointer to the end of another segment. -/
def writePointerTo (target : Nat) (w : DagWriter) : DagWriter := writePointer seg (w.segs.position target) w

def writeStringPtr (text : Option CString) (w : DagWriter) : DagWriter :=
  match text with
  | some text => { w with segs := (w.segs.writePointer seg (w.segs.position strSeg)).writeStringData strSeg text }
  | none => writeNullPointer seg w

def writeCommonStringPtr (ptr : CString) (w : DagWriter) : DagWriter :=
  let hash := djb2HashPath ptr
  match w.sharedStrings.lookup hash ptr with
  | none =>
      let pointer := w.segs.position strSeg
      ⟨(w.segs.writeStringData strSeg ptr).writePointer seg pointer, w.sharedStrings.insert hash ptr pointer⟩
  | some pointer => writePointer seg pointer w

/-- The count of an array and a pointer to its elements, which go into another segment one after the other. -/
def writeArray {α : Type} (arraySeg : Nat) (count : Nat) (elem : α → DagWriter → DagWriter) (values : List α)
    (w : DagWriter) : DagWriter :=
  values.foldl (fun w value => elem value w) (writePointerTo seg arraySeg (writeInt32 seg (.ofNat count) w))

/-- An array without elements has no place. -/
def writeNoArray (w : DagWriter) : DagWriter := writeNullPointer seg (writeInt32 seg 0 w)

end Values

/-- One turn of the loop of `WriteFileArray`. -/
def writeFile (ptrSeg : Nat) (file : FileAndHash) (w : DagWriter) : DagWriter :=
  writeUint32 ptrSeg file.filenameHash (writeStringPtr ptrSeg (some file.filename) w)

def writeFileArray (seg ptrSeg : Nat) (files : FileArray) (w : DagWriter) : DagWriter :=
  if files.count = 0 then writeNoArray seg w else writeArray seg ptrSeg files.count (writeFile ptrSeg) files.files w

/-- An index in an array of node indices. -/
def writeIndex (seg : Nat) (index : Nat) (w : DagWriter) : DagWriter := writeInt32 seg (.ofNat index) w

/-! ### Scanners -/

/-- One turn of the loop of `write_kws`. -/
def writeKeyword (arraySeg : Nat) (keyword : KeywordData) (w : DagWriter) : DagWriter :=
  write arraySeg [if keyword.shouldFollow then 1 else 0, 0]
    (write arraySeg (Bytes.toLE 2 keyword.stringLength.toUInt16.toNat)
      (writeStringPtr arraySeg (some keyword.string) w))

/-- `GenericScannerData::m_Flags`. -/
def scannerFlags (requireWhitespace useSeparators bareMeansSystem : Bool) : UInt32 :=
  (if requireWhitespace then 1 else 0) ||| (if useSeparators then 2 else 0) ||| (if bareMeansSystem then 4 else 0)

/-- The end of `WriteScanner`, from the digest on. -/
def writeScannerTail (env : DagEnv) (seg arraySeg : Nat) (scanner : ScannerData) (w : DagWriter) : DagWriter :=
  match scanner.scannerType with
  | .cpp => write seg scanner.scannerGuid.bytes w
  | .generic requireWhitespace useSeparators bareMeansSystem keywords =>
      let w := write seg (env.digestSpace scanner.scannerGuid).bytes w
      let w := writeUint32 seg (scannerFlags requireWhitespace useSeparators bareMeansSystem) w
      if keywords.length > 0 then
        writeArray seg arraySeg keywords.length (writeKeyword arraySeg) keywords (align arraySeg 4 w)
      else writeNoArray seg w

def writeScanner (env : DagEnv) (seg arraySeg : Nat) (scanner : ScannerData) (w : DagWriter) : DagWriter :=
  let type : Int32 := match scanner.scannerType with
    | .cpp => 0
    | .generic .. => 1
  writeScannerTail env seg arraySeg scanner
    (writeArray seg arraySeg scanner.includePaths.length (writeCommonStringPtr arraySeg) scanner.includePaths
      (writeInt32 seg type w))

def writeScanners (env : DagEnv) : List ScannerData → DagWriter → List BinaryLocator × DagWriter
  | [], w => ([], w)
  | scanner :: scanners, w =>
      let w := align auxSeg 4 w
      let ptr := w.segs.position auxSeg
      let (ptrs, w) := writeScanners env scanners (writeScanner env auxSeg aux2Seg scanner w)
      (ptr :: ptrs, w)

/-! ### Nodes -/

def writeDeps (deps : Option (List Nat)) (w : DagWriter) : DagWriter :=
  match deps with
  | some deps => writeArray nodeDataSeg auxSeg deps.length (writeIndex auxSeg) deps (align auxSeg 4 w)
  | none => writeNoArray nodeDataSeg w

def writeBackLinks (backLinks : List Nat) (w : DagWriter) : DagWriter :=
  if backLinks.length > 0 then writeArray nodeDataSeg auxSeg backLinks.length (writeIndex auxSeg) backLinks w
    else writeNoArray nodeDataSeg w

def writeEnvVar (seg : Nat) (envVar : EnvVarData) (w : DagWriter) : DagWriter :=
  writeCommonStringPtr seg envVar.value (writeCommonStringPtr seg envVar.name w)

def writeEnvVars (envVars : List EnvVarData) (w : DagWriter) : DagWriter :=
  if envVars.length > 0 then
    writeArray nodeDataSeg auxSeg envVars.length (writeEnvVar auxSeg) envVars (align auxSeg 4 w)
  else writeNoArray nodeDataSeg w

def writeScannerPtr (scannerPtrs : List BinaryLocator) (scannerIndex : Option Nat) (w : DagWriter) : DagWriter :=
  match scannerIndex.bind fun index => scannerPtrs[index]? with
  | some ptr => writePointer nodeDataSeg ptr w
  | none => writeNullPointer nodeDataSeg w

/-- One turn of the second loop of `WriteNodes`. -/
def writeNode (scannerPtrs : List BinaryLocator) (node : NodeFields) (w : DagWriter) : DagWriter :=
  let w := writeStringPtr nodeDataSeg node.action w
  let w := writeStringPtr nodeDataSeg node.preaction w
  let w := writeCommonStringPtr nodeDataSeg node.annotation w
  let w := writeInt32 nodeDataSeg node.passIndex w
  let w := writeDeps node.deps w
  let w := writeBackLinks node.backLinks w
  let w := writeFileArray nodeDataSeg auxSeg node.inputs w
  let w := writeFileArray nodeDataSeg auxSeg node.outputs w
  let w := writeFileArray nodeDataSeg auxSeg node.auxOutputs w
  let w := writeEnvVars node.envVars w
  let w := writeScannerPtr scannerPtrs node.scannerIndex w
  writeUint32 nodeDataSeg node.flags w

/-! ### The rest -/

def writeStrHashArray (strings : List CString) (w : DagWriter) : DagWriter :=
  let w := writeArray mainSeg auxSeg strings.length (fun str => writeStringPtr auxSeg (some str)) strings w
  strings.foldl (fun w str => writeUint32 auxSeg (djb2HashPath str) w) (writePointerTo mainSeg auxSeg w)

def writeNodeArray (indices : List Nat) (w : DagWriter) :
    DagWriter := writeArray auxSeg aux2Seg indices.length (writeIndex aux2Seg) indices w

def writeNamedNode (named : CString × Nat) (w : DagWriter) :
    DagWriter := writeIndex aux2Seg named.2 (writeStringPtr aux2Seg (some named.1) w)

def writeNamedNodes (namedNodes : Option (List (CString × Nat))) (w : DagWriter) : DagWriter :=
  match namedNodes with
  | some named => writeArray auxSeg aux2Seg named.length writeNamedNode named w
  | none => writeNoArray auxSeg w

def writeTuple (tuple : TupleFields) (w : DagWriter) : DagWriter :=
  let w := writeInt32 auxSeg tuple.configIndex w
  let w := writeInt32 auxSeg tuple.variantIndex w
  let w := writeInt32 auxSeg tuple.subVariantIndex w
  let w := writeNodeArray tuple.defaultNodes w
  let w := writeNodeArray tuple.alwaysNodes w
  writeNamedNodes tuple.namedNodes w

def writeFileSignature (env : DagEnv) (path : CString) (w : DagWriter) : DagWriter :=
  writeUint64 auxSeg (env.fileTimestamp path) (write auxSeg [0, 0, 0, 0] (writeStringPtr auxSeg (some path) w))

def writeGlobSignature (env : DagEnv) (path : CString) (w : DagWriter) : DagWriter :=
  write auxSeg (env.globSignature path).bytes (writeStringPtr auxSeg (some path) w)

/-- An array of the document that need not be there. -/
def writeOptional {α : Type} (write : α → DagWriter → DagWriter) (values : Option α) (w : DagWriter) : DagWriter :=
  match values with
  | some values => write values w
  | none => writeNoArray mainSeg w

def writeSetup (setup : SetupFields) (w : DagWriter) : DagWriter :=
  let w := writeStrHashArray setup.configs w
  let w := writeStrHashArray setup.variants w
  let w := writeStrHashArray setup.subVariants w
  let w := writeArray mainSeg auxSeg setup.tuples.length writeTuple setup.tuples w
  let w := writeInt32 mainSeg setup.defaultConfigIndex w
  let w := writeInt32 mainSeg setup.defaultVariantIndex w
  writeInt32 mainSeg setup.defaultSubVariantIndex w

/-- The signatures and extensions behind the build tuples. -/
def writeSignatures (env : DagEnv) (dag : DagFields) (w : DagWriter) : DagWriter :=
  let w := writeOptional (fun files => writeArray mainSeg auxSeg files.length (writeFileSignature env) files)
    dag.fileSignatures w
  let w := writeOptional (fun globs => writeArray mainSeg auxSeg globs.count (writeGlobSignature env) globs.paths)
    dag.globSignatures w
  writeOptional (fun exts => writeArray mainSeg auxSeg exts.length (fun ext => writeUint32 auxSeg (djb2HashPath ext))
    exts)
    dag.contentDigestExtensions w

end DagWriter

def dagDataMagicNumber : UInt32 := 0x1589010d ^^^ 0x7810221e

namespace DagWriter

def writeNodes (scannerPtrs : List BinaryLocator) (dag : DagFields) (w : DagWriter) : DagWriter :=
  let w := writeArray mainSeg nodeGuidSeg dag.guidTable.length (fun guid => write nodeGuidSeg guid.digest.bytes)
    dag.guidTable w
  dag.nodes.foldl (fun w node => writeNode scannerPtrs node w) (writePointerTo mainSeg nodeDataSeg w)

/-- The writes of `CompileDag` behind the scanners. -/
def writeMain (env : DagEnv) (scannerPtrs : List BinaryLocator) (dag : DagFields) (w : DagWriter) : DagWriter :=
  let w := writeUint32 mainSeg dagDataMagicNumber w
  let w := writeNodes scannerPtrs dag w
  let w := writeArray mainSeg auxSeg dag.passes.length (fun pass => writeStringPtr auxSeg (some pass)) dag.passes w
  let w := writeSetup dag.setup w
  let w := writeSignatures env dag w
  let w := writeInt32 mainSeg dag.maxExpensiveCount w
  dag.fileNames.foldl (fun w name => writeStringPtr mainSeg (some name) w) w

end DagWriter

/-- The writes of `CompileDag`. -/
def writeDag (env : DagEnv) (dag : DagFields) : DagWriter :=
  let (scannerPtrs, w) := DagWriter.writeScanners env dag.scanners .init
  DagWriter.writeMain env scannerPtrs dag w

def compileDag (env : DagEnv) (root : JsonObject) : Except CompileError Segments := do
  return (writeDag env (← readDag root)).segs

end Tundra
