import Tundra.StateFile.Save

/-!
# Loading the build state

`LoadFrozenData<StateData>` and what its users read through the frozen pointers: the guids and, at the same
indices, the node states with their lists of files. The result is that the file of a writer into which a list of
records was saved loads as that list.
-/

namespace Tundra

open Bytes

/-- A `FrozenArray<FrozenString>` in the file. -/
def readFrozenStrings (image : List UInt8) (p : Nat) : Option (List CString) := do
  let count ← readInt32 image p
  let array ← readPtr image (p + 4)
  (List.range count.toInt.toNat).mapM fun k => array.bind fun base => readFrozenString image (base + 4 * k)

/-- A `NodeStateData` in the file. -/
def readNodeStateData (image : List UInt8) (p : Nat) : Option NodeStateData := do
  let buildResult ← readInt32 image p
  let inputSignature ← readDigest image (p + 4)
  let outputFiles ← readFrozenStrings image (p + 20)
  let auxOutputFiles ← readFrozenStrings image (p + 28)
  return ⟨buildResult, inputSignature, outputFiles, auxOutputFiles⟩

/-- What a state file holds: `m_NodeCount`, the guids and the node states. -/
structure LoadedState where
  nodeCount : Int32
  nodeGuids : List HashDigest
  nodeStates : List NodeStateData

/-- `LoadFrozenData<StateData>`, with everything the file leads to. -/
def loadStateData (image : List UInt8) : Option LoadedState := do
  if image.length < 16 then none
  let magicNumber ← readUint32 image 0
  if magicNumber ≠ stateDataMagicNumber then none
  let nodeCount ← readInt32 image 4
  let guids ← readPtr image 8
  let states ← readPtr image 12
  let nodeGuids ← (List.range nodeCount.toInt.toNat).mapM fun k => guids.bind
    fun base => readDigest image (base + 16 * k)
  let nodeStates ← (List.range nodeCount.toInt.toNat).mapM fun k => states.bind
    fun base => readNodeStateData image (base + 36 * k)
  return ⟨nodeCount, nodeGuids, nodeStates⟩

variable {image : List UInt8} {base : Nat → Nat} {p : Nat}

/-! ### Files -/

/-- The four segments of the records stand in the image, one after the other. -/
structure ShownRecords (image : List UInt8) (base : Nat → Nat) (w : StateWriter) : Prop where
  guid : Shown image base (base 1) w.guidSeg
  state : Shown image base (base 2) w.stateSeg
  array : Shown image base (base 3) w.arraySeg
  string : Shown image base (base 4) w.stringSeg
  state_le : base 2 + w.stateSeg.bytes.length ≤ base 3
  array_le : base 3 + w.arraySeg.bytes.length ≤ base 4

namespace StateWriter

variable {w : StateWriter}

theorem foldl_saveFile_eq (files : List CString) :
    ∃ arraySeg stringSeg, files.foldl saveFile w = { w with arraySeg := arraySeg, stringSeg := stringSeg } := by
  induction files generalizing w with
  | nil => exact ⟨w.arraySeg, w.stringSeg, rfl⟩
  | cons file files ih =>
      obtain ⟨arraySeg, stringSeg, heq⟩ := @ih (w.saveFile file)
      exact ⟨arraySeg, stringSeg, heq⟩

theorem saveFiles_eq (files : List CString) : ∃ arraySeg stringSeg, w.saveFiles files =
    { w with
      stateSeg := (w.stateSeg.writeInt32 (.ofNat files.length)).writePointer (w.arraySeg.position 3)
      arraySeg := arraySeg
      stringSeg := stringSeg } := foldl_saveFile_eq files

theorem foldl_saveFile_array_length (files : List CString) :
    (files.foldl saveFile w).arraySeg.bytes.length = w.arraySeg.bytes.length + 4 * files.length := by
  induction files generalizing w with
  | nil => rfl
  | cons file files ih =>
      rw [List.foldl_cons, ih]
      simp only [saveFile, BinarySegment.length_writePointer, List.length_cons]
      ring

theorem shown_of_saveFile {file : CString} (h : ShownRecords image base (w.saveFile file)) :
    ShownRecords image base w where
  guid := h.guid
  state := h.state
  array := h.array.of_writePointer
  string := h.string.of_write
  state_le := h.state_le
  array_le := by
    have := h.array_le
    simp only [saveFile, BinarySegment.length_writePointer] at this
    omega

theorem read_foldl_saveFile {files : List CString} (h : ShownRecords image base (files.foldl saveFile w)) :
    ShownRecords image base w ∧ ∀ k (hk : k < files.length),
      readFrozenString image (base 3 + w.arraySeg.bytes.length + 4 * k) = some files[k] := by
  induction files generalizing w with
  | nil => exact ⟨h, by simp⟩
  | cons file files ih =>
      obtain ⟨hfirst, hrest⟩ := ih h
      refine ⟨shown_of_saveFile hfirst, fun k hk => ?_⟩
      cases k with
      | zero =>
          have hptr := hfirst.array.pointed
          have hat := hfirst.string.written
          have hle := hfirst.array_le
          simp only [saveFile, BinarySegment.length_writePointer] at hle
          refine readFrozenString_of_at hptr ?_ hat
          simp only [BinarySegment.position_segIndex, BinarySegment.position_offset]
          omega
      | succ k =>
          have hk := hrest k (by simpa using hk)
          simp only [saveFile, BinarySegment.length_writePointer] at hk
          simp only [List.getElem_cons_succ, ← hk]
          congr 1
          ring

/-- There are not more files than an `int32_t` can count: the pointers of their array reach over it. -/
theorem length_lt_of_shown {files : List CString} (h : ShownRecords image base (files.foldl saveFile w)) :
    files.length < 2 ^ 31 := by
  cases files with
  | nil => simp
  | cons file files =>
      have hfold : ShownRecords image base (files.foldl saveFile (w.saveFile file)) := h
      have hfirst := (read_foldl_saveFile hfold).1
      have hlt := hfirst.array.pointed.lt
      have hle := h.array_le
      rw [foldl_saveFile_array_length] at hle
      simp only [BinarySegment.position_segIndex, BinarySegment.position_offset] at hlt
      omega

theorem saveFiles_state_length (files : List CString) :
    (w.saveFiles files).stateSeg.bytes.length = w.stateSeg.bytes.length + 8 := by
  obtain ⟨arraySeg, stringSeg, heq⟩ := @saveFiles_eq w files
  simp [heq]

theorem saveRecord_frame (buildResult : Int32) (inputSignature : HashDigest) (outputFiles auxOutputFiles : List CString)
    (guid : HashDigest) :
    (w.saveRecord buildResult inputSignature outputFiles auxOutputFiles guid).mainSeg = w.mainSeg ∧
      (w.saveRecord buildResult inputSignature outputFiles auxOutputFiles guid).guidSeg = w.guidSeg.write guid.bytes ∧
      (w.saveRecord buildResult inputSignature outputFiles auxOutputFiles guid).entryCount = w.entryCount := by
  unfold saveRecord
  obtain ⟨_, _, hfirst⟩ := @saveFiles_eq { w with
    guidSeg := w.guidSeg.write guid.bytes
    stateSeg := (w.stateSeg.writeInt32 buildResult).write inputSignature.bytes } outputFiles
  simp only [hfirst]
  obtain ⟨_, _, hsecond⟩ := saveFiles_eq auxOutputFiles
  rw [hsecond]
  exact ⟨rfl, rfl, rfl⟩

theorem read_saveFiles {files : List CString} (h : ShownRecords image base (w.saveFiles files)) :
    ShownRecords image base w ∧ readFrozenStrings image (base 2 + w.stateSeg.bytes.length) = some files := by
  have hlt := length_lt_of_shown h
  obtain ⟨hw, hfiles⟩ := read_foldl_saveFile h
  have hstate := hw.state
  have hle := hw.state_le
  simp only [BinarySegment.length_writePointer, BinarySegment.length_writeInt32] at hle
  have hcount : At image (base 2 + w.stateSeg.bytes.length) (int32Bytes (.ofNat files.length)) :=
    hstate.of_writePointer.written
  have hptr : PointerAt image (base 2 + w.stateSeg.bytes.length + 4) (base 3 + w.arraySeg.bytes.length) := by
    have hpointed := hstate.pointed
    simpa [Nat.add_assoc] using hpointed
  refine ⟨⟨hw.guid, hstate.of_writePointer.of_write, hw.array, hw.string, by omega, hw.array_le⟩, ?_⟩
  simp only [readFrozenStrings, readInt32_of_at hcount, readPtr_of_pointerAt hptr (by omega), Option.bind_eq_bind,
    Option.bind_some,
    toNat_ofNat hlt]
  exact mapM_range_eq_some rfl hfiles

/-! ### Records -/

def save (w : StateWriter) (r : HashDigest × NodeStateData) : StateWriter :=
  (w.saveRecord r.2.buildResult r.2.inputSignature r.2.outputFiles r.2.auxOutputFiles r.1).countEntry

theorem save_state_length (r : HashDigest × NodeStateData) :
    (w.save r).stateSeg.bytes.length = w.stateSeg.bytes.length + 36 := by
  simp only [save, countEntry, saveRecord, saveFiles_state_length]
  simp

theorem save_guid_length (r : HashDigest × NodeStateData) :
    (w.save r).guidSeg.bytes.length = w.guidSeg.bytes.length + 16 := by
  simp [save, countEntry, (saveRecord_frame ..).2.1]

theorem read_save {r : HashDigest × NodeStateData} (h : ShownRecords image base (w.save r)) :
    ShownRecords image base w ∧ readDigest image (base 1 + w.guidSeg.bytes.length) = some r.1 ∧
      readNodeStateData image (base 2 + w.stateSeg.bytes.length) = some r.2 := by
  have hrecord : ShownRecords image base
    (w.saveRecord r.2.buildResult r.2.inputSignature r.2.outputFiles r.2.auxOutputFiles r.1) :=
    ⟨h.guid, h.state, h.array, h.string, h.state_le, h.array_le⟩
  obtain ⟨houtputs, haux⟩ := read_saveFiles hrecord
  rw [saveFiles_state_length] at haux
  obtain ⟨hstart, hfiles⟩ := read_saveFiles houtputs
  have hresult : At image (base 2 + w.stateSeg.bytes.length) (int32Bytes r.2.buildResult) :=
    hstart.state.of_write.written
  have hsignature : At image (base 2 + w.stateSeg.bytes.length + 4) r.2.inputSignature.bytes := by
    have hwritten := hstart.state.written
    simpa [Nat.add_assoc] using hwritten
  have hguid : At image (base 1 + w.guidSeg.bytes.length) r.1.bytes := hstart.guid.written
  have hle := hstart.state_le
  have hlength : ((w.stateSeg.writeInt32 r.2.buildResult).write r.2.inputSignature.bytes).bytes.length =
      w.stateSeg.bytes.length + 20 := by
    simp
  simp only [hlength] at hle hfiles haux
  refine ⟨⟨hstart.guid.of_write, hstart.state.of_write.of_write, hstart.array,
    hstart.string, by omega, hstart.array_le⟩,
    readDigest_of_at hguid, ?_⟩
  rw [show base 2 + (w.stateSeg.bytes.length + 20 + 8) = base 2 + w.stateSeg.bytes.length + 28 by ring] at haux
  rw [show base 2 + (w.stateSeg.bytes.length + 20) = base 2 + w.stateSeg.bytes.length + 20 by ring] at hfiles
  simp [readNodeStateData, readInt32_of_at hresult, readDigest_of_at hsignature, hfiles, haux]

/-- The records that were written can be read, each at its index. -/
theorem read_foldl_save {rs : List (HashDigest × NodeStateData)} (h : ShownRecords image base (rs.foldl save w)) :
    ShownRecords image base w ∧ ∀ k (hk : k < rs.length),
      readDigest image (base 1 + w.guidSeg.bytes.length + 16 * k) = some rs[k].1 ∧
        readNodeStateData image (base 2 + w.stateSeg.bytes.length + 36 * k) = some rs[k].2 := by
  induction rs generalizing w with
  | nil => exact ⟨h, by simp⟩
  | cons r rs ih =>
      obtain ⟨hfirst, hrest⟩ := ih h
      obtain ⟨hw, hguid, hstate⟩ := read_save hfirst
      refine ⟨hw, fun k hk => ?_⟩
      cases k with
      | zero => exact ⟨hguid, hstate⟩
      | succ k =>
          obtain ⟨hguid, hstate⟩ := hrest k (by simpa using hk)
          rw [save_guid_length] at hguid
          rw [save_state_length] at hstate
          rw [List.getElem_cons_succ, ← hguid, ← hstate]
          constructor <;> congr 1 <;> ring

theorem foldl_save_guid_length (rs : List (HashDigest × NodeStateData)) :
    (rs.foldl save w).guidSeg.bytes.length = w.guidSeg.bytes.length + 16 * rs.length := by
  induction rs generalizing w with
  | nil => rfl
  | cons r rs ih =>
      rw [List.foldl_cons, ih, save_guid_length, List.length_cons]
      ring

theorem foldl_save_frame (rs : List (HashDigest × NodeStateData)) :
    (rs.foldl save w).mainSeg = w.mainSeg ∧ (rs.foldl save w).entryCount = w.entryCount + rs.length := by
  induction rs generalizing w with
  | nil => exact ⟨rfl, rfl⟩
  | cons r rs ih =>
      obtain ⟨hmain, hcount⟩ := @ih (w.save r)
      have hframe := @saveRecord_frame w r.2.buildResult r.2.inputSignature r.2.outputFiles r.2.auxOutputFiles r.1
      rw [List.foldl_cons, hmain, hcount, List.length_cons]
      simp only [save, countEntry, hframe]
      exact ⟨trivial, by ring⟩

end StateWriter

/-- The main data structure stands at the beginning of the file. -/
theorem read_completeMain {w : StateWriter} (hempty : w.mainSeg = .empty)
    (h : Shown image base 0 (completeMain w).mainSeg) (hbase1 : 16 ≤ base 1) (hbase2 : 16 ≤ base 2) :
    16 ≤ image.length ∧ readUint32 image 0 = some stateDataMagicNumber ∧ readInt32 image 4 = some
    (.ofNat w.entryCount) ∧
      readPtr image 8 = some (some (base 1)) ∧ readPtr image 12 = some (some (base 2)) ∧ base 2 < 12 + 2 ^ 31 := by
  simp only [completeMain, hempty] at h
  have hstates : PointerAt image 12 (base 2) := by simpa using h.pointed
  have hguids : PointerAt image 8 (base 1) := by simpa using h.of_writePointer.pointed
  have hcount : At image 4 (int32Bytes (.ofNat w.entryCount)) := by
    simpa using h.of_writePointer.of_writePointer.written
  have hmagic : At image 0 (toLE 4 stateDataMagicNumber.toNat) := by
    simpa using h.of_writePointer.of_writePointer.of_write.written
  refine ⟨?_, readUint32_of_at hmagic, readInt32_of_at hcount, readPtr_of_pointerAt hguids (by omega),
    readPtr_of_pointerAt hstates (by omega), hstates.lt⟩
  obtain ⟨offset, hat, -⟩ := hstates
  have hlength := hat.length_le (by intro hnil; simpa using congrArg List.length hnil)
  rwa [length_int32Bytes] at hlength

/-- The file of a writer into which records were saved loads as these records. -/
theorem load_flush {rs : List (HashDigest × NodeStateData)}
    (h : BinaryWriter.flush (completeMain (rs.foldl .save .empty)).segments = some image) :
    rs.length < 2 ^ 31 ∧ loadStateData image = some ⟨.ofNat rs.length, rs.map Prod.fst, rs.map Prod.snd⟩ := by
  obtain ⟨hempty, hcount⟩ := @StateWriter.foldl_save_frame .empty rs
  have hguidLength := @StateWriter.foldl_save_guid_length .empty rs
  generalize hw : rs.foldl StateWriter.save .empty = w at h hempty hcount hguidLength
  generalize hsegs : (completeMain w).segments = segs at h
  have hget : ∀ k : Nat, segs[k]? = (completeMain w).segments[k]? := fun k => by rw [hsegs]
  have hshown : ∀ (k : Nat) seg, segs[k]? = some seg →
    Shown image (BinaryWriter.base segs) (BinaryWriter.base segs k) seg :=
    fun k seg hk => BinaryWriter.flush_shown h hk
  have hrecords : ShownRecords image (BinaryWriter.base segs) (rs.foldl .save .empty) := by
    rw [hw]
    exact ⟨hshown 1 _ (hget 1), hshown 2 _ (hget 2), hshown 3 _ (hget 3), hshown 4 _ (hget 4),
      BinaryWriter.base_add_le (hget 2) (by decide), BinaryWriter.base_add_le (hget 3) (by decide)⟩
  have hmainLe := BinaryWriter.base_add_le (hget 0) (by decide : 0 < 1)
  have hguidLe := BinaryWriter.base_add_le (hget 1) (by decide : 1 < 2)
  simp only [completeMain, hempty, BinarySegment.length_writePointer, BinarySegment.length_writeInt32,
    BinarySegment.length_writeUint32, BinaryWriter.base_zero, StateWriter.empty, BinarySegment.length_empty] at hmainLe
  have hguidLe' : BinaryWriter.base segs 1 + w.guidSeg.bytes.length ≤ BinaryWriter.base segs 2 := hguidLe
  rw [hguidLength] at hguidLe'
  obtain ⟨hsize, hmagic, hnodeCount, hguids, hstates, hfar⟩ :=
    read_completeMain hempty (hshown 0 _ (hget 0)) (by omega) (by omega)
  have hlt : rs.length < 2 ^ 31 := by omega
  have hread := (StateWriter.read_foldl_save hrecords).2
  have hentries : w.entryCount = rs.length := by
    rw [hcount]
    exact Nat.zero_add _
  have hguidList : (List.range rs.length).mapM (fun k => readDigest image (BinaryWriter.base segs 1 + 16 * k)) =
      some (rs.map Prod.fst) := by
    apply mapM_range_eq_some (List.length_map _)
    intro k hk
    rw [List.getElem_map]
    exact (hread k (by simpa using hk)).1
  have hstateList : (List.range rs.length).mapM (fun k => readNodeStateData image (BinaryWriter.base segs 2 + 36 * k)) =
      some (rs.map Prod.snd) := by
    apply mapM_range_eq_some (List.length_map _)
    intro k hk
    rw [List.getElem_map]
    exact (hread k (by simpa using hk)).2
  refine ⟨hlt, ?_⟩
  rw [hentries] at hnodeCount
  simp only [loadStateData, if_neg (not_lt.mpr hsize), hmagic, hnodeCount, hguids, hstates, toNat_ofNat hlt,
    Option.bind_eq_bind,
    Option.bind_some, hguidList, hstateList, ne_eq, not_true_eq_false, if_false, Option.pure_def]

end Tundra
