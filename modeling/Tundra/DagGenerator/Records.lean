import Tundra.DagGenerator.Fields

/-!
# Records of the DAG

What the records that `CompileDag` writes are in the file, each read back from the state of the writer right
after it was written.
-/

namespace Tundra

open Bytes

def frozenKeyword (keyword : KeywordData) :
    FrozenKeyword := ⟨keyword.string, keyword.stringLength, keyword.shouldFollow⟩

def frozenScanner (env : DagEnv) (scanner : ScannerData) : FrozenScanner :=
  match scanner.scannerType with
  | .cpp => ⟨0, scanner.includePaths, scanner.scannerGuid, none⟩
  | .generic requireWhitespace useSeparators bareMeansSystem keywords =>
      ⟨1, scanner.includePaths, env.digestSpace scanner.scannerGuid,
        some (DagWriter.scannerFlags requireWhitespace useSeparators bareMeansSystem, keywords.map frozenKeyword)⟩

/-- An index as it stands in the file. -/
def frozenIndex (index : Nat) : Int32 := .ofNat index

def frozenNode (env : DagEnv) (scanners : List ScannerData) (node : NodeFields) : FrozenNode where
  action := node.action
  preAction := node.preaction
  annotation := some node.annotation
  passIndex := node.passIndex
  dependencies := (node.deps.getD []).map frozenIndex
  backLinks := node.backLinks.map frozenIndex
  inputFiles := node.inputs.files
  outputFiles := node.outputs.files
  auxOutputFiles := node.auxOutputs.files
  envVars := node.envVars
  scanner := (node.scannerIndex.bind fun index => scanners[index]?).map (frozenScanner env)
  flags := node.flags

def frozenNamedNode (named : CString × Nat) : CString × Int32 := (named.1, frozenIndex named.2)

def frozenTuple (tuple : TupleFields) : FrozenTuple where
  configIndex := tuple.configIndex
  variantIndex := tuple.variantIndex
  subVariantIndex := tuple.subVariantIndex
  defaultNodes := tuple.defaultNodes.map frozenIndex
  alwaysNodes := tuple.alwaysNodes.map frozenIndex
  namedNodes := (tuple.namedNodes.getD []).map frozenNamedNode

/-- The arrays of files of a node are whole. -/
structure NodeFields.Complete (node : NodeFields) : Prop where
  inputs : node.inputs.files.length = node.inputs.count
  outputs : node.outputs.files.length = node.outputs.count
  auxOutputs : node.auxOutputs.files.length = node.auxOutputs.count

namespace DagWriter

variable {S : List UInt8 → (Nat → Nat) → Prop} {k j : Nat}

/-! ### Elements of arrays -/

theorem field_bytes {data : List UInt8} (hk : k < 6) (hdata : data ≠ []) :
    Field S k data.length (write k data) (fun image p => Bytes.read image p data.length) data :=
  field_write hk fun _ _ h => h.read hdata

theorem field_file (hk : k < strSeg) (file : FileAndHash) : Field S k 8 (writeFile k file) readFileAndHash file := by
  refine ((field_stringPtr hk file.filename).seq (field_uint32 (hk.trans (by decide)) file.filenameHash)).of_read
    fun image p h => ?_
  obtain ⟨hname, hhash⟩ := pairAt_eq_some h
  simp [readFileAndHash, hname, hhash]

theorem field_index (hk : k < 6) (index : Nat) :
    Field S k 4 (writeIndex k index) readInt32 (frozenIndex index) := field_int32 hk _

theorem field_keyword (hk : k < strSeg) (keyword : KeywordData) :
    Field S k 8 (writeKeyword k keyword) loadKeyword (frozenKeyword keyword) := by
  have hk6 : k < 6 := hk.trans (by decide)
  have hlength : Int16.ofNat (ofLE (toLE 2 keyword.stringLength.toUInt16.toNat)) = keyword.stringLength := by
    rw [ofLE_toLE_of_lt (UInt16.toNat_lt _)]
    exact Int16.ofNat_bitVecToNat _
  have hne : ∀ n, toLE 2 n ≠ [] := fun n hnil => by simpa using congrArg List.length hnil
  refine ((field_stringPtr hk keyword.string).seq ((field_bytes hk6 (hne _)).seq
    (field_bytes hk6 (List.cons_ne_nil (if keyword.shouldFollow then 1 else 0) [0])))).of_read fun image p h => ?_
  obtain ⟨hstring, hrest⟩ := pairAt_eq_some h
  obtain ⟨hcount, hfollow⟩ := pairAt_eq_some hrest
  have hfollow : Bytes.read image (p + 6) 2 = some [if keyword.shouldFollow then 1 else 0, 0] := by
    rwa [length_toLE, Nat.add_assoc] at hfollow
  rw [length_toLE] at hcount
  simp only [loadKeyword, hstring, hcount, hfollow, hlength, frozenKeyword, Option.bind_eq_bind, Option.bind_some,
    Option.pure_def]
  cases keyword.shouldFollow <;> rfl

theorem field_envVar (hk : k < strSeg) (envVar : EnvVarData) :
    Field S k 8 (writeEnvVar k envVar) loadEnvVar envVar := by
  refine ((field_commonStringPtr hk envVar.name).seq (field_commonStringPtr hk envVar.value)).of_read
    fun image p h => ?_
  obtain ⟨hname, hvalue⟩ := pairAt_eq_some h
  simp [loadEnvVar, hname, hvalue]

theorem field_namedNode (named : CString × Nat) :
    Field S aux2Seg 8 (writeNamedNode named) loadNamedNode (frozenNamedNode named) := by
  refine ((field_stringPtr (by decide) named.1).seq (field_index (by decide) named.2)).of_read fun image p h => ?_
  obtain ⟨hname, hindex⟩ := pairAt_eq_some h
  simp [loadNamedNode, hname, hindex, frozenNamedNode]

theorem field_fileSignature (env : DagEnv) (path : CString) :
    Field S auxSeg 16 (writeFileSignature env path) loadFileSignature (path, env.fileTimestamp path) := by
  refine ((field_stringPtr (by decide) path).seq ((field_bytes (by decide) (List.cons_ne_nil 0 [0, 0, 0])).seq
    (field_uint64 (by decide) (env.fileTimestamp path)))).of_read fun image p h => ?_
  obtain ⟨hpath, hrest⟩ := pairAt_eq_some h
  obtain ⟨-, htimestamp⟩ := pairAt_eq_some hrest
  have htimestamp : readUint64 image (p + 8) = some (env.fileTimestamp path) := by rwa [Nat.add_assoc] at htimestamp
  simp only [loadFileSignature, hpath, htimestamp, Option.bind_eq_bind, Option.bind_some, Option.pure_def]

theorem field_globSignature (env : DagEnv) (path : CString) :
    Field S auxSeg 20 (writeGlobSignature env path) loadGlobSignature (path, env.globSignature path) := by
  refine ((field_stringPtr (by decide) path).seq (field_digest (by decide) (env.globSignature path))).of_read
    fun image p h => ?_
  obtain ⟨hpath, hdigest⟩ := pairAt_eq_some h
  simp [loadGlobSignature, hpath, hdigest]

/-! ### Scanners -/

def scannerSize (scanner : ScannerData) : Nat :=
  match scanner.scannerType with
  | .cpp => 28
  | .generic .. => 40

variable {env : DagEnv}

theorem field_keywords (hS : ∀ image base, S image base → SmallBase base) (hk : k < j) (hj : j < strSeg)
    (keywords : List KeywordData) :
    Field S k 8
      (fun w => if keywords.length > 0 then writeArray k j keywords.length (writeKeyword j) keywords (align j 4 w)
      else writeNoArray k w)
      (readFrozenArray 8 loadKeyword) (keywords.map frozenKeyword) := by
  refine field_arrayIf (hk.trans (hj.trans (by decide))) ?_
  exact (field_array hS hk hj (by decide) fun keyword _ => field_keyword hj keyword).after (adding_align j 4)
    (keep_align hk)

theorem field_scanner (hS : ∀ image base, S image base → SmallBase base) (hk : k < j) (hj : j < strSeg)
    (scanner : ScannerData) :
    Field S k (scannerSize scanner) (writeScanner env k j scanner) loadScanner (frozenScanner env scanner) := by
  have hk6 : k < 6 := hk.trans (hj.trans (by decide))
  obtain ⟨scannerType, includePaths, scannerGuid⟩ := scanner
  have hpaths := field_values hS hk hj (by decide) fun path (_ : path ∈ includePaths) => field_commonStringPtr hj path
  cases scannerType with
  | cpp =>
      refine ((field_int32 hk6 0).seq (hpaths.seq (field_digest hk6 scannerGuid))).of_read fun image p h => ?_
      obtain ⟨htype, hrest⟩ := pairAt_eq_some h
      obtain ⟨hpaths, hguid⟩ := pairAt_eq_some hrest
      rw [Nat.add_assoc] at hguid
      simp [loadScanner, htype, hpaths, hguid, frozenScanner]
  | generic requireWhitespace useSeparators bareMeansSystem keywords =>
      refine ((field_int32 hk6 1).seq (hpaths.seq ((field_digest hk6 (env.digestSpace scannerGuid)).seq
        ((field_uint32 hk6 (scannerFlags requireWhitespace useSeparators bareMeansSystem)).seq
          (field_keywords hS hk hj keywords))))).of_read fun image p h => ?_
      obtain ⟨htype, hrest⟩ := pairAt_eq_some h
      obtain ⟨hpaths, hrest⟩ := pairAt_eq_some hrest
      obtain ⟨hguid, hrest⟩ := pairAt_eq_some hrest
      obtain ⟨hflags, hkeywords⟩ := pairAt_eq_some hrest
      simp only [Nat.add_assoc, Nat.reduceAdd] at hguid hflags hkeywords
      simp [loadScanner, htype, hpaths, hguid, hflags, hkeywords, frozenScanner]

/-- In the file every scanner is where its pointer leads. -/
def ScannersAt (env : DagEnv) (scanners : List ScannerData) (ptrs : List BinaryLocator) (image : List UInt8)
    (base : Nat → Nat) : Prop :=
  List.Forall₂ (fun scanner ptr => ptr.segIndex = auxSeg ∧
    loadScanner image (base auxSeg + ptr.offset) = some (frozenScanner env scanner))
    scanners ptrs

theorem writeScanners_spec (scanners : List ScannerData) (w : DagWriter) (hw : w.Good) :
    w.segs ≤ (writeScanners env scanners w).2.segs ∧ (writeScanners env scanners w).2.Good ∧
      (∀ i < auxSeg, (writeScanners env scanners w).2.segs.size i = w.segs.size i) ∧
      ∀ image base, Placed 6 (writeScanners env scanners w).2.segs image base → SmallBase base →
        ScannersAt env scanners (writeScanners env scanners w).1 image base := by
  induction scanners generalizing w with
  | nil => exact ⟨le_refl _, hw, fun _ _ => rfl, fun _ _ _ _ => .nil⟩
  | cons scanner scanners ih =>
      have hfield : Field (fun _ base => SmallBase base) auxSeg (scannerSize scanner)
        (writeScanner env auxSeg aux2Seg scanner) loadScanner
          (frozenScanner env scanner) := field_scanner (fun _ _ h => h) (by decide) (by decide) scanner
      obtain ⟨hle, hgood⟩ := adding_align auxSeg 4 w hw
      obtain ⟨hle', hgood'⟩ := hfield.adding _ hgood
      obtain ⟨hle'', hgood'', hsize, hscanners⟩ := ih _ hgood'
      refine ⟨hle.trans (hle'.trans hle''), hgood'', fun i hi => ?_, fun image base hp hsmall => ?_⟩
      · have halign : (align auxSeg 4 w).segs.size i = w.segs.size i := (keep_align hi).self w
        exact (hsize i hi).trans ((hfield.grows.below _ hi).trans halign)
      · exact .cons ⟨rfl, hfield.reads _ hgood image base (hp.of_le hle'') hsmall⟩ (hscanners image base hp hsmall)

theorem ScannersAt.getElem? {scanners : List ScannerData} {ptrs : List BinaryLocator} {image : List UInt8}
    {base : Nat → Nat} (h : ScannersAt env scanners ptrs image base) (index : Nat) :
    Option.Rel (fun scanner ptr => ptr.segIndex = auxSeg ∧
    loadScanner image (base auxSeg + ptr.offset) = some (frozenScanner env scanner))
      scanners[index]? ptrs[index]? := by
  induction h generalizing index with
  | nil => exact .none
  | cons hscanner _ ih =>
      cases index with
      | zero => exact .some hscanner
      | succ index => exact ih index

/-! ### Nodes -/

section Nodes

variable {scanners : List ScannerData} {ptrs : List BinaryLocator}

/-- The scanner of a node is the one its index stands for. -/
theorem field_scannerPtr (hS : ∀ image base, S image base → ScannersAt env scanners ptrs image base)
    (scannerIndex : Option Nat) :
    Field S nodeDataSeg 4 (writeScannerPtr ptrs scannerIndex) loadScannerPtr
      ((scannerIndex.bind fun index => scanners[index]?).map (frozenScanner env)) where
  adding w hw := by
    simp only [writeScannerPtr]
    split
    case h_1 ptr _ => exact adding_writePointer nodeDataSeg ptr w hw
    case h_2 => exact (field_null (S := S) (by decide)).adding w hw
  grows w i hi := by
    simp only [writeScannerPtr]
    split
    case h_1 ptr _ => exact grows_writePointer nodeDataSeg ptr w i hi
    case h_2 => exact (field_null (S := S) (by decide)).grows w i hi
  reads w hw image base hp hbase := by
    have hnone : ∀ hp : Placed 6 (writeNullPointer nodeDataSeg w).segs image base,
        loadScannerPtr image (base nodeDataSeg + w.segs.size nodeDataSeg) = some none := fun hp => by
      rw [loadScannerPtr, (field_null (by decide)).reads w hw image base hp hbase]
      rfl
    cases scannerIndex with
    | none => exact hnone hp
    | some index =>
        have hscanner := (hS image base hbase).getElem? index
        rw [writeScannerPtr, Option.bind_some] at hp
        rw [Option.bind_some]
        generalize scanners[index]? = scanner at hscanner
        generalize ptrs[index]? = ptr at hscanner hp
        cases hscanner with
        | none => exact hnone hp
        | some h =>
            obtain ⟨hsegment, hload⟩ := h
            have hptr := hp.readPtr (hsegment ▸ by decide) (hsegment ▸ by decide)
            rw [hsegment] at hptr
            simp only [loadScannerPtr, hptr, hload, Option.bind_eq_bind, Option.bind_some, Option.pure_def,
              Option.map_some]

section Arrays

variable (hS : ∀ image base, S image base → SmallBase base)
include hS

theorem field_deps (deps : Option (List Nat)) :
    Field S nodeDataSeg 8 (writeDeps deps) (readFrozenArray 4 readInt32) ((deps.getD []).map frozenIndex) := by
  cases deps with
  | none => exact field_noArray (by decide)
  | some deps =>
      refine (field_array hS (by decide) (by decide) (by decide) fun index _ => ?_).after (adding_align auxSeg 4)
        (keep_align (by decide))
      exact field_index (by decide) index

theorem field_backLinks (backLinks : List Nat) :
    Field S nodeDataSeg 8 (writeBackLinks backLinks) (readFrozenArray 4 readInt32) (backLinks.map frozenIndex) := by
  refine field_arrayIf (by decide) (field_array hS (by decide) (by decide) (by decide) fun index _ => ?_)
  exact field_index (by decide) index

theorem field_fileArray {files : FileArray} (hcomplete : files.files.length = files.count) :
    Field S nodeDataSeg 8 (writeFileArray nodeDataSeg auxSeg files)
    (readFrozenArray 8 readFileAndHash) files.files := by
  obtain ⟨count, files⟩ := files
  obtain rfl : files.length = count := hcomplete
  have hfield := field_values (k := nodeDataSeg) (j := auxSeg) hS (by decide) (by decide) (by decide)
    fun file (_ : file ∈ files) =>
    field_file (by decide) file
  cases files with
  | nil => exact field_noArray (by decide)
  | cons file files => exact hfield

theorem field_envVars (envVars : List EnvVarData) :
    Field S nodeDataSeg 8 (writeEnvVars envVars) (readFrozenArray 8 loadEnvVar) envVars := by
  have hfield := field_array (k := nodeDataSeg) (j := auxSeg) hS (by decide) (by decide) (by decide)
    fun envVar (_ : envVar ∈ envVars) =>
    field_envVar (by decide) envVar
  have hfields := field_arrayIf (by decide) (hfield.after (adding_align auxSeg 4) (keep_align (by decide)))
  rwa [List.map_id'] at hfields

end Arrays

theorem field_node (hS : ∀ image base, S image base → SmallBase base ∧ ScannersAt env scanners ptrs image base)
    {node : NodeFields} (hnode : node.Complete) :
    Field S nodeDataSeg 72 (writeNode ptrs node) loadNode (frozenNode env scanners node) := by
  have hsmall : ∀ image base, S image base → SmallBase base := fun image base h => (hS image base h).1
  have hlabel : Field S nodeDataSeg 4 (writeCommonStringPtr nodeDataSeg node.annotation) loadString
    (some node.annotation) :=
    (field_commonStringPtr (by decide) node.annotation).of_read fun image p h => loadString_of_readFrozenString h
  refine ((field_loadString (by decide) node.action).seq ((field_loadString (by decide) node.preaction).seq (hlabel.seq
    ((field_int32 (by decide) node.passIndex).seq
      ((field_deps hsmall node.deps).seq ((field_backLinks hsmall node.backLinks).seq
    ((field_fileArray hsmall hnode.inputs).seq
      ((field_fileArray hsmall hnode.outputs).seq ((field_fileArray hsmall hnode.auxOutputs).seq
    ((field_envVars hsmall node.envVars).seq
      ((field_scannerPtr (fun image base h => (hS image base h).2) node.scannerIndex).seq
    (field_uint32 (by decide) node.flags)))))))))))).of_read fun image p h => ?_
  obtain ⟨haction, h⟩ := pairAt_eq_some h
  obtain ⟨hpreaction, h⟩ := pairAt_eq_some h
  obtain ⟨hlabel, h⟩ := pairAt_eq_some h
  obtain ⟨hpass, h⟩ := pairAt_eq_some h
  obtain ⟨hdeps, h⟩ := pairAt_eq_some h
  obtain ⟨hlinks, h⟩ := pairAt_eq_some h
  obtain ⟨hinputs, h⟩ := pairAt_eq_some h
  obtain ⟨houtputs, h⟩ := pairAt_eq_some h
  obtain ⟨hauxOutputs, h⟩ := pairAt_eq_some h
  obtain ⟨henv, h⟩ := pairAt_eq_some h
  obtain ⟨hscanner, hflags⟩ := pairAt_eq_some h
  simp only [Nat.add_assoc, Nat.reduceAdd] at hpreaction hlabel hpass hdeps hlinks hinputs houtputs hauxOutputs henv hscanner hflags
  simp only [loadNode, haction, hpreaction, hlabel, hpass, hdeps, hlinks, hinputs, houtputs, hauxOutputs, henv,
    hscanner, hflags, frozenNode,
    Option.bind_eq_bind, Option.bind_some, Option.pure_def]

end Nodes

/-! ### Build tuples -/

section Tuples

variable (hS : ∀ image base, S image base → SmallBase base)
include hS

theorem field_nodeArray (indices : List Nat) :
    Field S auxSeg 8 (writeNodeArray indices) (readFrozenArray 4 readInt32) (indices.map frozenIndex) :=
  field_array hS (by decide) (by decide) (by decide) fun index _ => field_index (by decide) index

theorem field_namedNodes (namedNodes : Option (List (CString × Nat))) :
    Field S auxSeg 8 (writeNamedNodes namedNodes) (readFrozenArray 8 loadNamedNode)
    ((namedNodes.getD []).map frozenNamedNode) := by
  cases namedNodes with
  | none => exact field_noArray (by decide)
  | some named => exact field_array hS (by decide) (by decide) (by decide) fun named _ => field_namedNode named

theorem field_tuple (tuple : TupleFields) : Field S auxSeg 36 (writeTuple tuple) loadTuple (frozenTuple tuple) := by
  refine ((field_int32 (by decide) tuple.configIndex).seq ((field_int32 (by decide) tuple.variantIndex).seq
    ((field_int32 (by decide) tuple.subVariantIndex).seq ((field_nodeArray hS tuple.defaultNodes).seq
    ((field_nodeArray hS tuple.alwaysNodes).seq (field_namedNodes hS tuple.namedNodes)))))).of_read fun image p h => ?_
  obtain ⟨hconfig, h⟩ := pairAt_eq_some h
  obtain ⟨hvariant, h⟩ := pairAt_eq_some h
  obtain ⟨hsubVariant, h⟩ := pairAt_eq_some h
  obtain ⟨hdefault, h⟩ := pairAt_eq_some h
  obtain ⟨halways, hnamed⟩ := pairAt_eq_some h
  simp only [Nat.add_assoc, Nat.reduceAdd] at hvariant hsubVariant hdefault halways hnamed
  simp only [loadTuple, hconfig, hvariant, hsubVariant, hdefault, halways, hnamed, frozenTuple, Option.bind_eq_bind,
    Option.bind_some,
    Option.pure_def]

end Tuples

end DagWriter

end Tundra
