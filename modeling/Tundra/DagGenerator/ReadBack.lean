import Tundra.DagGenerator.Records

/-!
# Reading the DAG back

The file that `CompileDag` writes, loaded again. If no array was cut short, every field of `DagData` is what the
document gave for it.
-/

namespace Tundra

open Bytes

def frozenNames (names : List CString) : List CString × List UInt32 := (names, names.map djb2HashPath)

def frozenSetup (setup : SetupFields) : FrozenSetup where
  configs := frozenNames setup.configs
  variants := frozenNames setup.variants
  subVariants := frozenNames setup.subVariants
  buildTuples := setup.tuples.map frozenTuple
  defaultConfigIndex := setup.defaultConfigIndex
  defaultVariantIndex := setup.defaultVariantIndex
  defaultSubVariantIndex := setup.defaultSubVariantIndex

def frozenDag (env : DagEnv) (dag : DagFields) : FrozenDag where
  nodeGuids := dag.guidTable.map TempNodeGuid.digest
  nodes := dag.nodes.map (frozenNode env dag.scanners)
  passes := dag.passes
  setup := frozenSetup dag.setup
  fileSignatures := (dag.fileSignatures.getD []).map fun path => (path, env.fileTimestamp path)
  globSignatures := ((dag.globSignatures.map GlobArray.paths).getD []).map fun path => (path, env.globSignature path)
  shaExtensionHashes := (dag.contentDigestExtensions.getD []).map djb2HashPath
  maxExpensiveCount := dag.maxExpensiveCount
  fileNames := dag.fileNames

/-- No array was cut short. -/
structure DagFields.Complete (dag : DagFields) : Prop where
  nodes : ∀ node ∈ dag.nodes, node.Complete
  nodes_length : dag.nodes.length = dag.guidTable.length
  globSignatures : ∀ globs, dag.globSignatures = some globs → globs.paths.length = globs.count
  fileNames : dag.fileNames.length = 6

namespace DagWriter

variable {S : List UInt8 → (Nat → Nat) → Prop}

section Main

variable (hS : ∀ image base, S image base → SmallBase base)
include hS

theorem field_strHashArray (strings : List CString) :
    Field S mainSeg 12 (writeStrHashArray strings) loadNames (frozenNames strings) := by
  have hfield := field_twoArrays (k := mainSeg) (j := auxSeg) hS (by decide) (by decide) (by decide)
    (show auxSeg < strSeg by decide)
    (by decide) rfl (fun str (_ : str ∈ strings) => field_stringPtr (by decide) str)
      fun str _ => field_uint32 (by decide) (djb2HashPath str)
  rwa [List.map_id'] at hfield

theorem field_setup (setup : SetupFields) : Field S mainSeg 56 (writeSetup setup) loadSetup (frozenSetup setup) := by
  have htuples : Field S mainSeg 8 (writeArray mainSeg auxSeg setup.tuples.length writeTuple setup.tuples)
    (readFrozenArray 36 loadTuple)
      (setup.tuples.map frozenTuple) :=
        field_array hS (by decide) (by decide) (by decide) fun tuple _ => field_tuple hS tuple
  refine ((field_strHashArray hS setup.configs).seq
    ((field_strHashArray hS setup.variants).seq ((field_strHashArray hS setup.subVariants).seq
    (htuples.seq ((field_int32 (by decide) setup.defaultConfigIndex).seq
      ((field_int32 (by decide) setup.defaultVariantIndex).seq
    (field_int32 (by decide) setup.defaultSubVariantIndex))))))).of_read fun image p h => ?_
  obtain ⟨hconfigs, h⟩ := pairAt_eq_some h
  obtain ⟨hvariants, h⟩ := pairAt_eq_some h
  obtain ⟨hsubVariants, h⟩ := pairAt_eq_some h
  obtain ⟨htuples, h⟩ := pairAt_eq_some h
  obtain ⟨hconfig, h⟩ := pairAt_eq_some h
  obtain ⟨hvariant, hsubVariant⟩ := pairAt_eq_some h
  simp only [Nat.add_assoc, Nat.reduceAdd] at hvariants hsubVariants htuples hconfig hvariant hsubVariant
  simp only [loadSetup, hconfigs, hvariants, hsubVariants, htuples, hconfig, hvariant, hsubVariant, frozenSetup,
    Option.bind_eq_bind,
    Option.bind_some, Option.pure_def]

theorem field_fileSignatures (env : DagEnv) (files : Option (List CString)) :
    Field S mainSeg 8 (writeOptional
    (fun files => writeArray mainSeg auxSeg files.length (writeFileSignature env) files) files)
      (readFrozenArray 16 loadFileSignature) ((files.getD []).map fun path => (path, env.fileTimestamp path)) := by
  cases files with
  | none => exact field_noArray (by decide)
  | some files => exact field_array hS (by decide) (by decide) (by decide) fun path _ => field_fileSignature env path

theorem field_globSignatures (env : DagEnv) {globs : Option GlobArray}
    (hglobs : ∀ g, globs = some g → g.paths.length = g.count) :
    Field S mainSeg 8 (writeOptional
    (fun globs => writeArray mainSeg auxSeg globs.count (writeGlobSignature env) globs.paths) globs)
      (readFrozenArray 20 loadGlobSignature)
      (((globs.map GlobArray.paths).getD []).map fun path => (path, env.globSignature path)) := by
  cases globs with
  | none => exact field_noArray (by decide)
  | some globs =>
      have hfield := field_array (k := mainSeg) (j := auxSeg) hS (by decide) (by decide) (by decide)
        fun path (_ : path ∈ globs.paths) =>
        field_globSignature env path
      rwa [hglobs globs rfl] at hfield

theorem field_extensions (exts : Option (List CString)) :
    Field S mainSeg 8
      (writeOptional (fun exts => writeArray mainSeg auxSeg exts.length
      (fun ext => writeUint32 auxSeg (djb2HashPath ext)) exts) exts)
      (readFrozenArray 4 readUint32) ((exts.getD []).map djb2HashPath) := by
  cases exts with
  | none => exact field_noArray (by decide)
  | some exts =>
      exact field_array hS (by decide) (by decide) (by decide) fun ext _ => field_uint32 (by decide) (djb2HashPath ext)

end Main

variable {env : DagEnv} {ptrs : List BinaryLocator} {dag : DagFields}

theorem field_main (hS : ∀ image base, S image base → SmallBase base ∧ ScannersAt env dag.scanners ptrs image base)
    (hdag : dag.Complete) :
    Field S mainSeg 132 (writeMain env ptrs dag) loadDag (frozenDag env dag) := by
  have hsmall : ∀ image base, S image base → SmallBase base := fun image base h => (hS image base h).1
  have hnodes : Field S mainSeg 12 (writeNodes ptrs dag) (readTwoArrays 16 readDigest 72 loadNode)
      (dag.guidTable.map TempNodeGuid.digest, dag.nodes.map (frozenNode env dag.scanners)) :=
    field_twoArrays hsmall (by decide) (by decide) (by decide) (by decide) (by decide) hdag.nodes_length
      (fun guid _ => field_digest (by decide) guid.digest) fun node hnode => field_node hS (hdag.nodes node hnode)
  have hpasses := field_values (k := mainSeg) (j := auxSeg) hsmall (by decide) (by decide) (by decide)
    fun pass (_ : pass ∈ dag.passes) =>
    field_stringPtr (by decide) pass
  have hnames := field_foldl (S := S) (k := mainSeg)
    fun name (_ : name ∈ dag.fileNames) => field_stringPtr (by decide) name
  rw [List.map_id', hdag.fileNames] at hnames
  refine ((field_uint32 (by decide) dagDataMagicNumber).seq (hnodes.seq (hpasses.seq ((field_setup hsmall dag.setup).seq
    ((field_fileSignatures hsmall env dag.fileSignatures).seq ((field_globSignatures hsmall env hdag.globSignatures).seq
    ((field_extensions hsmall dag.contentDigestExtensions).seq ((field_int32 (by decide) dag.maxExpensiveCount).seq
    hnames)))))))).of_read fun image p h => ?_
  obtain ⟨hmagic, h⟩ := pairAt_eq_some h
  obtain ⟨hnodes, h⟩ := pairAt_eq_some h
  obtain ⟨hpasses, h⟩ := pairAt_eq_some h
  obtain ⟨hsetup, h⟩ := pairAt_eq_some h
  obtain ⟨hfiles, h⟩ := pairAt_eq_some h
  obtain ⟨hglobs, h⟩ := pairAt_eq_some h
  obtain ⟨hexts, h⟩ := pairAt_eq_some h
  obtain ⟨hmax, hnames⟩ := pairAt_eq_some h
  simp only [Nat.add_assoc, Nat.reduceAdd] at hpasses hsetup hfiles hglobs hexts hmax hnames
  simp only [loadDag, hmagic, hnodes, hpasses, hsetup, hfiles, hglobs, hexts, hmax, hnames, frozenDag, ne_eq,
    not_true_eq_false, if_false,
    Option.bind_eq_bind, Option.bind_some, Option.pure_def]

theorem pointerAt_fileNames {names : List CString} {w : DagWriter} {image : List UInt8} {base : Nat → Nat}
    (hnames : names ≠ [])
    (hp : Placed 6 (names.foldl (fun w name => writeStringPtr mainSeg (some name) w) w).segs image base) :
    ∃ p target, (names.foldl (fun w name => writeStringPtr mainSeg (some name) w) w).segs.size mainSeg = p + 4 ∧
    base strSeg ≤ target ∧
      PointerAt image p target := by
  obtain rfl | ⟨names, last, rfl⟩ := List.eq_nil_or_concat names
  · exact absurd rfl hnames
  rw [List.concat_eq_append, List.foldl_append, List.foldl_cons, List.foldl_nil] at hp ⊢
  have hpointed := (hp.of_le (Segments.le_write _ _ _)).pointed (by decide)
  rw [hp.zero, Nat.zero_add] at hpointed
  have hgrows := (field_stringPtr (S := fun _ _ => True) (k := mainSeg) (by decide) last).grows
  exact ⟨_, _, hgrows.self _, Nat.le_add_right _ _, hpointed⟩

end DagWriter

open DagWriter in
theorem loadDagData_flush {env : DagEnv} {dag : DagFields} {image : List UInt8} (hdag : dag.Complete)
    (h : (writeDag env dag).segs.flush 6 = some image) : loadDagData image = some (frozenDag env dag) := by
  have hw : init.Good := Pooled.init
  obtain ⟨-, hgood, hsize, hscanners⟩ := @writeScanners_spec env dag.scanners init hw
  have hmain : Field (fun image base => SmallBase base ∧
    ScannersAt env dag.scanners (writeScanners env dag.scanners init).1 image base) mainSeg 132
      (writeMain env (writeScanners env dag.scanners init).1 dag) loadDag (frozenDag env dag) :=
        field_main (fun _ _ h => h) hdag
  obtain ⟨base, hp⟩ : ∃ base, Placed 6 (writeMain env (writeScanners env dag.scanners init).1 dag
      (writeScanners env dag.scanners init).2).segs image base := ⟨_, Placed.of_flush h⟩
  have hzero : (writeScanners env dag.scanners init).2.segs.size mainSeg = 0 := hsize mainSeg (by decide)
  have hend := hmain.grows.self (writeScanners env dag.scanners init).2
  have hnames : dag.fileNames ≠ [] := fun hnil => by simpa [hnil] using hdag.fileNames
  obtain ⟨p, target, hlast, htarget, hpointer⟩ := pointerAt_fileNames hnames hp
  obtain rfl : p = 128 := by
    have hsum := hlast.symm.trans hend
    omega
  have hsmall : SmallBase base := by
    have hlt := hpointer.lt
    rw [SmallBase]
    omega
  have hlength : 132 ≤ image.length := by
    obtain ⟨offset, hat, -⟩ := hpointer
    have hle := hat.length_le fun hnil => by simpa using congrArg List.length hnil
    rwa [length_int32Bytes] at hle
  have hread := hmain.reads _ hgood image base hp
    ⟨hsmall, hscanners image base (hp.of_le (hmain.adding _ hgood).1) hsmall⟩
  rw [hp.zero, hzero] at hread
  rw [loadDagData, if_neg (by omega)]
  exact hread

end Tundra
