import Tundra.Queue.State
import Tundra.BinaryData
import Tundra.SortedArrayUtil
import Mathlib.Data.List.Sort

/-!
# Saving the build state

`DriverSaveBuildState`: the records of the build just made and of the previous state file, merged by guid and
written with a `BinaryWriter` of five segments. Nothing comes of it when the writer gives up on a distance that
is too big.
-/

namespace Tundra

def stateDataMagicNumber : UInt32 := 0x15890102 ^^^ 0x7810221e

/-- The five segments of the state file and `entry_count`. -/
structure StateWriter where
  mainSeg : BinarySegment
  guidSeg : BinarySegment
  stateSeg : BinarySegment
  arraySeg : BinarySegment
  stringSeg : BinarySegment
  entryCount : Nat

namespace StateWriter

def empty : StateWriter := ⟨.empty, .empty, .empty, .empty, .empty, 0⟩

/-- The writer's segments, in the order they were added in. -/
def segments (w : StateWriter) : List BinarySegment := [w.mainSeg, w.guidSeg, w.stateSeg, w.arraySeg, w.stringSeg]

/-- One turn of the loops over the output files. -/
def saveFile (w : StateWriter) (file : CString) : StateWriter :=
  { w with
    arraySeg := w.arraySeg.writePointer (w.stringSeg.position 4)
    stringSeg := w.stringSeg.writeStringData file }

/-- The count of a list of files, the pointer to its array, and the files. -/
def saveFiles (w : StateWriter) (files : List CString) : StateWriter :=
  let stateSeg := (w.stateSeg.writeInt32 (.ofNat files.length)).writePointer (w.arraySeg.position 3)
  files.foldl saveFile { w with stateSeg := stateSeg }

/-- The body `save_node_state` and `save_node_state_old` share. -/
def saveRecord (w : StateWriter) (buildResult : Int32) (inputSignature : HashDigest)
    (outputFiles auxOutputFiles : List CString) (guid : HashDigest) : StateWriter :=
  let w := { w with guidSeg := w.guidSeg.write guid.bytes }
  let w := { w with stateSeg := (w.stateSeg.writeInt32 buildResult).write inputSignature.bytes }
  (w.saveFiles outputFiles).saveFiles auxOutputFiles

def saveNodeState (w : StateWriter) (buildResult : Int32) (inputSignature : HashDigest) (srcNode : NodeData)
    (guid : HashDigest) :
    StateWriter :=
  w.saveRecord buildResult inputSignature (srcNode.outputFiles.map FileAndHash.filename)
    (srcNode.auxOutputFiles.map FileAndHash.filename) guid

def saveNodeStateOld (w : StateWriter) (buildResult : Int32) (inputSignature : HashDigest) (srcNode : NodeStateData)
    (guid : HashDigest) : StateWriter :=
  w.saveRecord buildResult inputSignature srcNode.outputFiles srcNode.auxOutputFiles guid

def countEntry (w : StateWriter) : StateWriter := { w with entryCount := w.entryCount + 1 }

end StateWriter

/-- `old_guids` with `old_state`; there is nothing in them without a previous state. -/
def oldRecords (prev : Option StateData) : List (HashDigest × NodeStateData) :=
  match prev with
  | some state => state.nodeGuids.zip state.nodeStates
  | none => []

/-- `src_guids + src_index`. -/
def DagData.guid (dag : DagData) (index : Nat) : HashDigest := dag.nodeGuids.getD index ⟨0, 0⟩

/-- `src_data + src_index`. -/
def DagData.node (dag : DagData) (index : Nat) : NodeData := dag.nodeData.getD index .empty

/-- The record a search in the previous state finds. -/
def findOld (prev : Option StateData) (guid : HashDigest) : Option NodeStateData :=
  match prev with
  | some state => (binarySearch compareHashDigests state.nodeGuids guid).bind fun i => state.nodeStates[i]?
  | none => none

section Save

variable (dag : DagData) (prev : Option StateData)

/-- `save_new`. A node state comes with the index behind its `m_MmapData`. -/
def saveNew (w : StateWriter) (elem : Nat × NodeState) : StateWriter :=
  let guid := dag.guid elem.1
  if elem.2.progress.toNat < BuildProgress.unblocked.toNat then
    match findOld prev guid with
    | some old => (w.saveNodeStateOld old.buildResult old.inputSignature old guid).countEntry
    | none => w
  else (w.saveNodeState elem.2.buildResult elem.2.inputSignature (dag.node elem.1) guid).countEntry

def saveOld (w : StateWriter) (old : HashDigest × NodeStateData) : StateWriter :=
  match binarySearch compareHashDigests dag.nodeGuids old.1 with
  | some srcIndex => (w.saveNodeState old.2.buildResult old.2.inputSignature (dag.node srcIndex) old.1).countEntry
  | none => w

/-- The `std::sort` by `m_MmapData`. -/
def sortNodes (nodes : List (Nat × NodeState)) : List (Nat × NodeState) := nodes.insertionSort fun l r => l.1 ≤ r.1

/-- The segments when the main data structure is complete. -/
def completeMain (w : StateWriter) : StateWriter :=
  let mainSeg := (w.mainSeg.writeUint32 stateDataMagicNumber).writeInt32 (.ofNat w.entryCount)
  { w with mainSeg := (mainSeg.writePointer
    (BinarySegment.empty.position 1)).writePointer (BinarySegment.empty.position 2) }

/-- `DriverSaveBuildState`: the bytes of the file it writes. -/
def saveBuildState (nodes : List (Nat × NodeState)) : Option (List UInt8) :=
  let w := traverseSortedArrays compareHashDigests (saveNew dag prev) (fun elem => dag.guid elem.1) (saveOld dag)
    Prod.fst
    (sortNodes nodes) (oldRecords prev) .empty
  BinaryWriter.flush (completeMain w).segments

end Save

end Tundra
