import Tundra.PathUtil.Ancestors
import Tundra.HashTable
import Tundra.Dag
import Mathlib.Data.List.Sort

/-!
# Stale outputs

`DriverRemoveStaleOutputs`: the outputs of the previous build that no node of the DAG has any more are removed
before the build, with the directories above them as far as these are empty. The outputs of the DAG go into one
hash set, the paths to be removed into another, and the second one is sorted by the length of the paths, so that
a directory comes behind what was in it.

Only the outputs themselves are looked up in the first set. A directory that has become an output file is removed.
-/

namespace Tundra

/-- `HashSetInsert` behind a `HashSetLookup`. -/
def addName (table : HashTable Unit) (hash : UInt32) (name : CString) : HashTable Unit :=
  match table.lookup hash name with
  | some _ => table
  | none => table.insert hash name ()

def addFile (fileTable : HashTable Unit) (p : FileAndHash) :
    HashTable Unit := addName fileTable p.filenameHash p.filename

/-- `file_table`: all current regular and aux output files. -/
def currentFiles (dag : DagData) : HashTable Unit :=
  dag.nodeData.foldl (fun table node => node.auxOutputFiles.foldl addFile (node.outputFiles.foldl addFile table)) .init

/-- The loop of `check_file` that schedules the parent directories. There is nothing to strip when the fuel is
the number of segments and gone. -/
def nukeParents : Nat → PathBuffer → HashTable Unit → Option (HashTable Unit)
  | 0, _, nukeTable => some nukeTable
  | fuel + 1, buffer, nukeTable =>
      match pathStripLast buffer with
      | (false, _) => some nukeTable
      | (true, buffer) =>
          if buffer.segments.length = 0 then some nukeTable
          else (pathFormat buffer).bind fun dir => nukeParents fuel buffer (addName nukeTable (djb2HashPath dir) dir)

def checkFile (fileTable nukeTable : HashTable Unit) (path : CString) : Option (HashTable Unit) :=
  match fileTable.lookup (djb2HashPath path) path with
  | some _ => some nukeTable
  | none =>
      let nukeTable := addName nukeTable (djb2HashPath path) path
      (pathInit path .unix).bind fun buffer => nukeParents buffer.segments.length buffer nukeTable

/-- `nuke_table` after all output files in the state were checked. -/
def nukeTable (dag : DagData) (state : StateData) : Option (HashTable Unit) :=
  state.nodeStates.foldlM (fun table node => do
    let table ← node.outputFiles.foldlM (checkFile (currentFiles dag)) table
    node.auxOutputFiles.foldlM (checkFile (currentFiles dag)) table) .init

/-- The paths `DriverRemoveStaleOutputs` passes to `RemoveFileOrDir`, in order. It has no value where a path
does not fit into a path buffer, which ends the program. -/
def driverRemoveStaleOutputs (sort : List CString → List CString) (dag : DagData) (state : Option StateData) :
    Option (List CString) :=
  match state with
  | none => some []
  | some state => (nukeTable dag state).map fun table => sort (table.walk.map Record.string)

/-- What the program relies on `std::sort` for: the paths in some order of descending length. -/
structure SortsByLength (sort : List CString → List CString) : Prop where
  perm : ∀ paths, (sort paths).Perm paths
  sorted : ∀ paths, (sort paths).Pairwise fun l r => r.bytes.length ≤ l.bytes.length

/-- The output and aux output files of the nodes. -/
def outputsOf (dag : DagData) : List CString :=
  dag.nodeData.flatMap fun node => (node.outputFiles ++ node.auxOutputFiles).map FileAndHash.filename

/-- The output and aux output files of the previous build. -/
def previousOutputs (state : StateData) :
    List CString := state.nodeStates.flatMap fun node => node.outputFiles ++ node.auxOutputFiles

/-- The output files of the DAG come with the hashes of their names, as the DAG compiler writes them. -/
def HashedOutputs (dag : DagData) : Prop :=
  ∀ node ∈ dag.nodeData, ∀ file ∈ node.outputFiles ++ node.auxOutputFiles, file.filenameHash =
    djb2HashPath file.filename

/-- An output of the previous build that no node has any more. -/
def Stale (dag : DagData) (state : StateData) (path : CString) :
    Prop := path ∈ previousOutputs state ∧ path ∉ outputsOf dag

/-! ### Sets of names -/

section Names

variable {table table' : HashTable Unit} {name : CString}

/-- The table is a set of these names. -/
structure NameSet (table : HashTable Unit) (names : Set CString) : Prop where
  distinct : table.Distinct djb2HashPath
  mem : ∀ name, name ∈ table.walk.map Record.string ↔ name ∈ names

theorem NameSet.init : NameSet .init ∅ where
  distinct := .init
  mem name := iff_of_false List.not_mem_nil (Set.notMem_empty name)

variable {names : Set CString}

theorem NameSet.lookup_isSome (h : NameSet table names) :
    (table.lookup (djb2HashPath name) name).isSome = true ↔ name ∈ names := by
  rw [← h.mem, List.mem_map, Option.isSome_iff_exists]
  constructor
  · rintro ⟨payload, hlookup⟩
    obtain ⟨r, hr, hstring, -⟩ := h.distinct.lookup_eq_some_iff.mp hlookup
    exact ⟨r, hr, hstring⟩
  · rintro ⟨r, hr, hstring⟩
    exact ⟨r.payload, h.distinct.lookup_eq_some_iff.mpr ⟨r, hr, hstring, rfl⟩⟩

theorem NameSet.addName (h : NameSet table names) (name : CString) :
    NameSet (addName table (djb2HashPath name) name) (insert name names) := by
  unfold Tundra.addName
  cases hlookup : table.lookup (djb2HashPath name) name with
  | some payload =>
      have hname : name ∈ names := h.lookup_isSome.mp (by rw [hlookup]; rfl)
      rwa [Set.insert_eq_of_mem hname]
  | none =>
      have hnew : ∀ r ∈ table.walk, r.string ≠ name := by
        rintro r hr rfl
        have hsome := h.lookup_isSome.mpr ((h.mem _).mp (List.mem_map_of_mem hr))
        rw [hlookup] at hsome
        cases hsome
      obtain ⟨-, hperm, -⟩ := h.distinct.valid.insert_spec (djb2HashPath_ne_zero name) name ()
      refine ⟨h.distinct.insert (djb2HashPath_ne_zero name) hnew (), fun other => ?_⟩
      rw [(hperm.map Record.string).mem_iff, List.map_cons, List.mem_cons, h.mem]
      rfl

theorem NameSet.addFiles {files : List FileAndHash} (h : NameSet table names)
    (hhash : ∀ file ∈ files, file.filenameHash = djb2HashPath file.filename) :
    NameSet (files.foldl addFile table) (names ∪ {name | name ∈ files.map FileAndHash.filename}) := by
  induction files generalizing table names with
  | nil => simpa using h
  | cons file files ih =>
      have hadd : NameSet (addFile table file) (insert file.filename names) := by
        rw [addFile, hhash file List.mem_cons_self]
        exact h.addName file.filename
      have hset : insert file.filename names ∪ {name | name ∈ files.map FileAndHash.filename} =
          names ∪ {name | name ∈ (file :: files).map FileAndHash.filename} := by
        ext name
        simp only [Set.mem_union, Set.mem_insert_iff, Set.mem_ofPred_eq, List.map_cons, List.mem_cons]
        tauto
      rw [List.foldl_cons, ← hset]
      exact ih hadd fun file hfile => hhash file (List.mem_cons_of_mem _ hfile)

theorem nameSet_currentFiles {dag : DagData} (hhash : HashedOutputs dag) :
    NameSet (currentFiles dag) {name | name ∈ outputsOf dag} := by
  have hall : ∀ (nodes : List NodeData) (table : HashTable Unit) (names : Set CString),
    (∀ node ∈ nodes, ∀ file ∈ node.outputFiles ++ node.auxOutputFiles,
      file.filenameHash = djb2HashPath file.filename) → NameSet table names →
      NameSet (nodes.foldl (fun table node => node.auxOutputFiles.foldl addFile
        (node.outputFiles.foldl addFile table)) table)
        (names ∪ {name | name ∈ nodes.flatMap fun node => (node.outputFiles ++
          node.auxOutputFiles).map FileAndHash.filename}) := by
    intro nodes
    induction nodes with
    | nil =>
        intro table names _ h
        simpa using h
    | cons node nodes ih =>
        intro table names hhash h
        have hnode := hhash node List.mem_cons_self
        have hadd := (h.addFiles fun file hfile => hnode file (List.mem_append_left _ hfile)).addFiles
          fun file hfile => hnode file (List.mem_append_right _ hfile)
        have hset : names ∪ {name | name ∈ (node :: nodes).flatMap fun node => (node.outputFiles ++
          node.auxOutputFiles).map FileAndHash.filename} =
            names ∪ {name | name ∈ node.outputFiles.map FileAndHash.filename} ∪
              {name | name ∈ node.auxOutputFiles.map FileAndHash.filename} ∪
              {name | name ∈ nodes.flatMap fun node => (node.outputFiles ++
                node.auxOutputFiles).map FileAndHash.filename} := by
          ext name
          simp only [Set.mem_union, Set.mem_ofPred_eq, List.flatMap_cons, List.mem_append, List.map_append, or_assoc]
        rw [hset]
        exact ih _ _ (fun node hmem => hhash node (List.mem_cons_of_mem _ hmem)) hadd
  have hset := hall dag.nodeData .init ∅ hhash .init
  rwa [Set.empty_union] at hset

end Names

/-! ### The paths to be removed -/

/-- The path and the directories above it fit into a path buffer. -/
def Fits (path : CString) : Prop :=
  ∃ buffer, pathInit path .unix = some buffer ∧
    ∀ k, 0 < k → k < buffer.segments.length → pathFormat { buffer with segments := buffer.segments.take k } ≠ none

/-- The path and the directories above it, if the path is none of the outputs. -/
def doomed (outputs : Set CString) (path : CString) :
    Set CString := {p | path ∉ outputs ∧ (p = path ∨ IsAncestor p path)}

theorem NormalForm.fits {path : CString} (h : NormalForm path) : Fits path := by
  obtain ⟨buffer, hinit, hformat⟩ := h
  refine ⟨buffer, hinit, fun k _ _ => ?_⟩
  obtain ⟨dir, hdir⟩ := pathFormat_take hformat k
  rw [hdir]
  exact Option.some_ne_none dir

/-- The loop over the parent directories, when the first segments of a path are left. -/
theorem nukeParents_spec {buffer : PathBuffer} (hdevice : buffer.windowsDevicePath = false) {m : Nat}
    (hm : m ≤ buffer.segments.length) :
    ∀ {table : HashTable Unit} {names : Set CString}, NameSet table names →
      (nukeParents m { buffer with segments := buffer.segments.take m } table = none ↔
        ∃ k, 0 < k ∧ k < m ∧ pathFormat { buffer with segments := buffer.segments.take k } = none) ∧
      ∀ table', nukeParents m { buffer with segments := buffer.segments.take m } table = some table' →
        NameSet table' (names ∪ {dir | ∃ k, 0 < k ∧ k < m ∧ pathFormat { buffer with segments := buffer.segments.take k } = some dir}) := by
  induction m with
  | zero =>
      intro table names h
      refine ⟨iff_of_false (by simp [nukeParents]) (by rintro ⟨k, -, hk, -⟩; omega), fun table' htable' => ?_⟩
      obtain rfl := Option.some.inj htable'
      have hnone : {dir | ∃ k, 0 < k ∧ k < 0 ∧ pathFormat { buffer with segments := buffer.segments.take k } = some dir} = ∅ := by
        ext dir
        simp
      rwa [hnone, Set.union_empty]
  | succ m ih =>
      intro table names h
      have hstrip : pathStripLast { buffer with segments := buffer.segments.take (m + 1) } =
          (true, { buffer with segments := buffer.segments.take m }) := by
        have hlength : (buffer.segments.take (m + 1)).length = m + 1 := List.length_take_of_le hm
        have hlast : (buffer.segments.take (m + 1)).dropLast = buffer.segments.take m := by
          rw [List.dropLast_eq_take, hlength, List.take_take, Nat.add_sub_cancel, min_eq_left (Nat.le_succ m)]
        simp only [pathStripLast, PathBuffer.minSegCount, hdevice, hlength, hlast, Bool.false_eq_true, if_false]
        rw [if_pos (Nat.succ_pos m)]
      have hlength : (buffer.segments.take m).length = m := List.length_take_of_le (by omega)
      rw [nukeParents, hstrip]
      simp only [hlength]
      by_cases hzero : m = 0
      · subst hzero
        simp only [if_true]
        refine ⟨iff_of_false (by simp) (by rintro ⟨k, hpos, hk, -⟩; omega), fun table' htable' => ?_⟩
        obtain rfl := Option.some.inj htable'
        have hnone : {dir | ∃ k, 0 < k ∧ k < 0 + 1 ∧ pathFormat { buffer with segments := buffer.segments.take k } = some dir} = ∅ := by
          ext dir
          simp only [Set.mem_ofPred_eq, Set.mem_empty_iff_false, iff_false]
          rintro ⟨k, hpos, hk, -⟩
          omega
        rwa [hnone, Set.union_empty]
      rw [if_neg hzero]
      cases hformat : pathFormat { buffer with segments := buffer.segments.take m } with
      | none =>
          rw [Option.bind_none]
          refine ⟨iff_of_true rfl ⟨m, Nat.pos_of_ne_zero hzero, Nat.lt_succ_self m, hformat⟩, fun table' htable' => ?_⟩
          cases htable'
      | some dir =>
          rw [Option.bind_some]
          obtain ⟨hnone, hsome⟩ := ih (by omega) (h.addName dir)
          refine ⟨hnone.trans ?_, fun table' htable' => ?_⟩
          · constructor
            · rintro ⟨k, hpos, hk, hk'⟩
              exact ⟨k, hpos, Nat.lt_succ_of_lt hk, hk'⟩
            · rintro ⟨k, hpos, hk, hk'⟩
              refine ⟨k, hpos, ?_, hk'⟩
              rcases Nat.lt_succ_iff_lt_or_eq.mp hk with hk | rfl
              · exact hk
              · rw [hformat] at hk'
                cases hk'
          · have hset := hsome table' htable'
            have hsplit : insert dir names ∪
              {dir | ∃ k, 0 < k ∧ k < m ∧ pathFormat { buffer with segments := buffer.segments.take k } = some dir} =
                names ∪ {dir | ∃ k, 0 < k ∧ k < m + 1 ∧ pathFormat { buffer with segments := buffer.segments.take k } = some dir} := by
              ext name
              simp only [Set.mem_union, Set.mem_insert_iff, Set.mem_ofPred_eq]
              constructor
              · rintro ((rfl | hname) | ⟨k, hpos, hk, hname⟩)
                · exact .inr ⟨m, Nat.pos_of_ne_zero hzero, Nat.lt_succ_self m, hformat⟩
                · exact .inl hname
                · exact .inr ⟨k, hpos, Nat.lt_succ_of_lt hk, hname⟩
              · rintro (hname | ⟨k, hpos, hk, hname⟩)
                · exact .inl (.inr hname)
                · rcases Nat.lt_succ_iff_lt_or_eq.mp hk with hk | rfl
                  · exact .inr ⟨k, hpos, hk, hname⟩
                  · rw [hformat, Option.some.injEq] at hname
                    exact .inl (.inl hname.symm)
            rwa [hsplit] at hset

variable {outputs names : Set CString} {fileTable table : HashTable Unit}

/-- `check_file` adds the path and the directories above it if the path is no output. -/
theorem checkFile_spec (hfiles : NameSet fileTable outputs) (h : NameSet table names) (path : CString) :
    (checkFile fileTable table path = none ↔ path ∉ outputs ∧ ¬ Fits path) ∧
      ∀ table', checkFile fileTable table path = some table' → NameSet table' (names ∪ doomed outputs path) := by
  unfold checkFile
  have hlookup : (fileTable.lookup (djb2HashPath path) path).isSome = true ↔ path ∈ outputs := hfiles.lookup_isSome
  cases hfound : fileTable.lookup (djb2HashPath path) path with
  | some payload =>
      rw [hfound] at hlookup
      have hpath : path ∈ outputs := hlookup.mp rfl
      refine ⟨iff_of_false (by simp) fun hnot => hnot.1 hpath, fun table' htable' => ?_⟩
      obtain rfl := Option.some.inj htable'
      have hnone : doomed outputs path = ∅ := by
        ext p
        simp [doomed, hpath]
      rwa [hnone, Set.union_empty]
  | none =>
      rw [hfound] at hlookup
      have hpath : path ∉ outputs := fun hmem => by cases hlookup.mpr hmem
      simp only
      cases hinit : pathInit path .unix with
      | none =>
          rw [Option.bind_none]
          refine ⟨iff_of_true rfl ⟨hpath, ?_⟩, fun table' htable' => by cases htable'⟩
          rintro ⟨buffer, hbuffer, -⟩
          rw [hinit] at hbuffer
          cases hbuffer
      | some buffer =>
          rw [Option.bind_some]
          have hparents := nukeParents_spec (pathInit_size hinit).2.1 (Nat.le_refl buffer.segments.length)
            (h.addName path)
          rw [List.take_length] at hparents
          refine ⟨hparents.1.trans ?_, fun table' htable' => ?_⟩
          · constructor
            · rintro ⟨k, hpos, hk, hformat⟩
              refine ⟨hpath, ?_⟩
              rintro ⟨buffer', hbuffer', hfits⟩
              rw [hinit, Option.some.injEq] at hbuffer'
              subst hbuffer'
              exact hfits k hpos hk hformat
            · rintro ⟨-, hfits⟩
              by_contra hall
              refine hfits ⟨buffer, hinit, fun k hpos hk hformat => hall ⟨k, hpos, hk, hformat⟩⟩
          · have hset := hparents.2 table' htable'
            have hdoomed : insert path names ∪ {dir | ∃ k, 0 < k ∧ k < buffer.segments.length ∧
                pathFormat { buffer with segments := buffer.segments.take k } = some dir} = names ∪ doomed outputs path := by
              ext p
              simp only [Set.mem_union, Set.mem_insert_iff, Set.mem_ofPred_eq, doomed, hpath, not_false_eq_true,
                true_and, IsAncestor, hinit,
                Option.some.injEq, exists_eq_left', exists_and_left]
              tauto
            rwa [hdoomed] at hset

theorem checkFiles_spec (hfiles : NameSet fileTable outputs) (paths : List CString) :
    ∀ {table : HashTable Unit} {names : Set CString},
    NameSet table names →
      (paths.foldlM (checkFile fileTable) table = none ↔ ∃ path ∈ paths, path ∉ outputs ∧ ¬ Fits path) ∧
      ∀ table', paths.foldlM (checkFile fileTable) table = some table' → NameSet table'
      (names ∪ {p | ∃ path ∈ paths, p ∈ doomed outputs path}) := by
  induction paths with
  | nil =>
      intro table names h
      refine ⟨iff_of_false (by simp) (by simp), fun table' htable' => ?_⟩
      obtain rfl := Option.some.inj htable'
      simpa using h
  | cons path paths ih =>
      intro table names h
      obtain ⟨hnone, hsome⟩ := checkFile_spec hfiles h path
      rw [List.foldlM_cons]
      cases hcheck : checkFile fileTable table path with
      | none =>
          refine ⟨iff_of_true rfl ⟨path, List.mem_cons_self, hnone.mp hcheck⟩, fun table' htable' => by cases htable'⟩
      | some between =>
          have hfit : ¬ (path ∉ outputs ∧ ¬ Fits path) := fun hnot => by
            rw [hnone.mpr hnot] at hcheck
            cases hcheck
          obtain ⟨hnone', hsome'⟩ := ih (hsome between hcheck)
          refine ⟨hnone'.trans ?_, fun table' htable' => ?_⟩
          · simp only [List.mem_cons, exists_eq_or_imp, hfit, false_or]
          · have hset := hsome' table' htable'
            have hunion : names ∪ doomed outputs path ∪ {p | ∃ path ∈ paths, p ∈ doomed outputs path} =
                names ∪ {p | ∃ path' ∈ path :: paths, p ∈ doomed outputs path'} := by
              ext p
              simp only [Set.mem_union, Set.mem_ofPred_eq, List.mem_cons, exists_eq_or_imp, or_assoc]
            rwa [hunion] at hset

/-- The two loops over the nodes of the state are one loop over their output files. -/
theorem nukeTable_eq (dag : DagData) (state : StateData) :
    nukeTable dag state = (previousOutputs state).foldlM (checkFile (currentFiles dag)) .init := by
  have hall : ∀ (nodes : List NodeStateData) (table : HashTable Unit),
      nodes.foldlM (fun table node => do
        let table ← node.outputFiles.foldlM (checkFile (currentFiles dag)) table
        node.auxOutputFiles.foldlM (checkFile (currentFiles dag)) table) table =
      (nodes.flatMap fun node => node.outputFiles ++ node.auxOutputFiles).foldlM (checkFile (currentFiles dag))
        table := by
    intro nodes
    induction nodes with
    | nil => exact fun table => rfl
    | cons node nodes ih =>
        intro table
        rw [List.foldlM_cons, List.flatMap_cons, List.foldlM_append, List.foldlM_append]
        simp only [ih]
  exact hall state.nodeStates .init

theorem nukeTable_spec {dag : DagData} (hhash : HashedOutputs dag) (state : StateData) :
    (nukeTable dag state = none ↔ ∃ path, Stale dag state path ∧ ¬ Fits path) ∧
      ∀ table, nukeTable dag state = some table →
        NameSet table {p | ∃ path, Stale dag state path ∧ (p = path ∨ IsAncestor p path)} := by
  obtain ⟨hnone, hsome⟩ := checkFiles_spec (nameSet_currentFiles hhash) (previousOutputs state) .init
  rw [nukeTable_eq]
  refine ⟨hnone.trans ?_, fun table htable => ?_⟩
  · simp only [Stale, and_assoc]
    rfl
  · have hset := hsome table htable
    have hstale : ∅ ∪ {p | ∃ path ∈ previousOutputs state, p ∈ doomed {name | name ∈ outputsOf dag} path} =
        {p | ∃ path, Stale dag state path ∧ (p = path ∨ IsAncestor p path)} := by
      rw [Set.empty_union]
      ext p
      simp only [Set.mem_ofPred_eq, doomed, Stale, and_assoc]
    rwa [hstale] at hset

/-! ### What is removed -/

variable {sort : List CString → List CString} {dag : DagData}

/-- The program ends on a stale output that does not fit into a path buffer, and only on such a one. -/
theorem exists_removed_iff (hhash : HashedOutputs dag) (state : StateData) :
    (∃ removed, driverRemoveStaleOutputs sort dag (some state) = some removed) ↔ ∀ path, Stale dag state path →
    Fits path := by
  have hnone := (nukeTable_spec hhash state).1
  constructor
  · rintro ⟨removed, hremoved⟩ path hstale
    obtain ⟨table, htable, -⟩ := Option.map_eq_some_iff.mp hremoved
    by_contra hnot
    rw [hnone.mpr ⟨path, hstale, hnot⟩] at htable
    cases htable
  · intro hfits
    have hsome : nukeTable dag state ≠ none := by
      intro htable
      obtain ⟨path, hstale, hnot⟩ := hnone.mp htable
      exact hnot (hfits path hstale)
    obtain ⟨table, htable⟩ := Option.ne_none_iff_exists'.mp hsome
    exact ⟨_, Option.map_eq_some_iff.mpr ⟨table, htable, rfl⟩⟩

theorem driverRemoveStaleOutputs_spec (hsort : SortsByLength sort) (hhash : HashedOutputs dag) {state : StateData}
    {removed : List CString} (h : driverRemoveStaleOutputs sort dag (some state) = some removed) :
    removed.Nodup ∧ (∀ p, p ∈ removed ↔ ∃ path, Stale dag state path ∧ (p = path ∨ IsAncestor p path)) ∧
      removed.Pairwise fun earlier later => ¬ IsAncestor earlier later := by
  obtain ⟨table, htable, rfl⟩ := Option.map_eq_some_iff.mp h
  have hset := (nukeTable_spec hhash state).2 table htable
  have hperm := hsort.perm (table.walk.map Record.string)
  refine ⟨hperm.nodup_iff.mpr hset.distinct.strings, fun p => hperm.mem_iff.trans (hset.mem p), ?_⟩
  refine (hsort.sorted _).imp fun hle hancestor => ?_
  have hlt := hancestor.length_lt
  omega

/-- With names as `PathFormat` writes them, what is removed are the stale outputs and the directories above
them, each once and each before the directories above it. -/
theorem stale_outputs_complete (hsort : SortsByLength sort) (hhash : HashedOutputs dag) {state : StateData}
    (hnormal : ∀ path ∈ previousOutputs state, NormalForm path) :
    ∃ removed, driverRemoveStaleOutputs sort dag (some state) = some removed ∧ removed.Nodup ∧
      (∀ p, p ∈ removed ↔ Stale dag state p ∨ ∃ path, Stale dag state path ∧ IsAncestor p path) ∧
      removed.Pairwise fun earlier later => ¬ IsAncestor earlier later := by
  obtain ⟨removed, hremoved⟩ := (exists_removed_iff hhash state).mpr fun path hstale => (hnormal path hstale.1).fits
  obtain ⟨hnodup, hmem, horder⟩ := driverRemoveStaleOutputs_spec hsort hhash hremoved
  refine ⟨removed, hremoved, hnodup, fun p => (hmem p).trans ?_, horder⟩
  constructor
  · rintro ⟨path, hstale, rfl | hancestor⟩
    · exact .inl hstale
    · exact .inr ⟨path, hstale, hancestor⟩
  · rintro (hstale | ⟨path, hstale, hancestor⟩)
    · exact ⟨p, hstale, .inl rfl⟩
    · exact ⟨path, hstale, .inr hancestor⟩

def RemovesNoOutput (sort : List CString → List CString) (dag : DagData) (state : Option StateData) : Prop :=
  ∀ removed, driverRemoveStaleOutputs sort dag state = some removed → ∀ p ∈ removed, p ∉ outputsOf dag

/-- No current output is removed if and only if none is a directory above a stale output; where a stale output
does not fit into a path buffer, nothing is removed. -/
theorem stale_outputs_safe (hsort : SortsByLength sort) (hhash : HashedOutputs dag) (state : Option StateData) :
    RemovesNoOutput sort dag state ↔
      ∀ s ∈ state, (∀ path, Stale dag s path → Fits path) → ∀ path, Stale dag s path →
      ∀ output ∈ outputsOf dag, ¬ IsAncestor output path := by
  cases state with
  | none =>
      refine iff_of_true (fun removed hremoved p hp => ?_) (fun s hs => by cases hs)
      obtain rfl := Option.some.inj hremoved
      cases hp
  | some state =>
      simp only [Option.mem_def, Option.some.injEq, forall_eq']
      constructor
      · intro h hfits path hstale output houtput hancestor
        obtain ⟨removed, hremoved⟩ := (exists_removed_iff hhash state).mpr hfits
        obtain ⟨-, hmem, -⟩ := driverRemoveStaleOutputs_spec hsort hhash hremoved
        exact h removed hremoved output ((hmem output).mpr ⟨path, hstale, .inr hancestor⟩) houtput
      · intro h removed hremoved p hp houtput
        have hfits := (exists_removed_iff hhash state).mp ⟨removed, hremoved⟩
        obtain ⟨-, hmem, -⟩ := driverRemoveStaleOutputs_spec hsort hhash hremoved
        obtain ⟨path, hstale, rfl | hancestor⟩ := (hmem p).mp hp
        · exact hstale.2 houtput
        · exact h hfits path hstale p houtput hancestor

/-! ### A directory that becomes a file -/

def sortByLength (paths : List CString) : List CString := paths.insertionSort fun l r => r.bytes.length ≤ l.bytes.length

theorem sortsByLength_insertionSort : SortsByLength sortByLength where
  perm paths := List.perm_insertionSort _ paths
  sorted paths := by
    have htotal : Std.Total fun l r : CString => r.bytes.length ≤ l.bytes.length := ⟨fun l r => Nat.le_total _ _⟩
    have htrans : IsTrans CString fun l r => r.bytes.length ≤ l.bytes.length := ⟨fun l m r hlm hmr => hmr.trans hlm⟩
    exact List.pairwise_insertionSort _ paths

theorem one_lt_int : 1 < 2 ^ 31 := by decide

def outputDag (outputs : List CString) : DagData where
  nodeGuids := [⟨1, 0⟩]
  nodeData := [{ NodeData.empty with outputFiles := outputs.map fun output => ⟨output, djb2HashPath output⟩ }]
  nodeGuids_length := rfl
  nodeCount_int := one_lt_int

/-- The state of a build of one node with these outputs. -/
def outputState (outputs : List CString) : StateData where
  nodeGuids := [⟨1, 0⟩]
  nodeStates := [⟨0, ⟨0, 0⟩, outputs, []⟩]
  nodeGuids_length := rfl
  nodeCount_int := one_lt_int

theorem hashedOutputs_outputDag (outputs : List CString) : HashedOutputs (outputDag outputs) := by
  intro node hnode file hfile
  rw [List.mem_singleton.mp hnode] at hfile
  rcases List.mem_append.mp hfile with houtput | haux
  · obtain ⟨output, -, rfl⟩ := List.mem_map.mp houtput
    rfl
  · cases haux

/-- The files `o/b` and `o/d/e` are no outputs any more, while `o/c` still is one. -/
def movedDag : DagData := outputDag [.lit "o/c"]

def movedState : StateData := outputState [.lit "o/b", .lit "o/c", .lit "o/d/e"]

theorem normal_movedState : ∀ path ∈ previousOutputs movedState, NormalForm path := by
  have hb : NormalForm (.lit "o/b") :=
    ⟨⟨.unix, false, false, 0, [.lit "o", .lit "b"]⟩, by decide +kernel, by decide +kernel⟩
  have hc : NormalForm (.lit "o/c") :=
    ⟨⟨.unix, false, false, 0, [.lit "o", .lit "c"]⟩, by decide +kernel, by decide +kernel⟩
  have he : NormalForm (.lit "o/d/e") :=
    ⟨⟨.unix, false, false, 0, [.lit "o", .lit "d", .lit "e"]⟩, by decide +kernel, by decide +kernel⟩
  have hprevious : previousOutputs movedState = [.lit "o/b", .lit "o/c", .lit "o/d/e"] := by decide +kernel
  simp only [hprevious, List.forall_mem_cons, List.not_mem_nil, false_imp_iff, implies_true, and_true]
  exact ⟨hb, hc, he⟩

/-- Both are removed, the directory `o/d`, and at last `o`. -/
theorem stale_outputs_complete_moved :
    driverRemoveStaleOutputs sortByLength movedDag (some movedState) = some
    [.lit "o/d/e", .lit "o/b", .lit "o/d", .lit "o"] ∧
    (∀ p, p ∈ [CString.lit "o/d/e", .lit "o/b", .lit "o/d", .lit "o"] ↔
      Stale movedDag movedState p ∨ ∃ path, Stale movedDag movedState path ∧ IsAncestor p path) ∧
    [CString.lit "o/d/e", .lit "o/b", .lit "o/d", .lit "o"].Pairwise
    fun earlier later => ¬ IsAncestor earlier later := by
  have hrun : driverRemoveStaleOutputs sortByLength movedDag (some movedState) =
    some [.lit "o/d/e", .lit "o/b", .lit "o/d", .lit "o"] := by
    decide +kernel
  obtain ⟨removed, hremoved, -, hmem, horder⟩ :=
    stale_outputs_complete sortsByLength_insertionSort (hashedOutputs_outputDag [.lit "o/c"]) normal_movedState
  obtain rfl := Option.some.inj (hremoved.symm.trans hrun)
  exact ⟨hrun, hmem, horder⟩

theorem stale_outputs_safe_moved : RemovesNoOutput sortByLength movedDag (some movedState) := by
  have houtputs : outputsOf movedDag = [.lit "o/c"] := by decide +kernel
  have hprevious : previousOutputs movedState = [.lit "o/b", .lit "o/c", .lit "o/d/e"] := by decide +kernel
  have hhash : HashedOutputs movedDag := hashedOutputs_outputDag [.lit "o/c"]
  refine (stale_outputs_safe sortsByLength_insertionSort hhash _).mpr
    fun s hs _ path hstale output houtput hancestor => ?_
  obtain rfl := Option.some.inj hs
  obtain rfl : output = .lit "o/c" := by rwa [houtputs, List.mem_singleton] at houtput
  have hlt := hancestor.length_lt
  have hpath := hstale.1
  rw [hprevious] at hpath
  rcases List.mem_cons.mp hpath with rfl | hpath
  · exact absurd hlt (by decide)
  rcases List.mem_cons.mp hpath with rfl | hpath
  · exact absurd hlt (by decide)
  -- the directories above `o/d/e` are `o` and `o/d`
  obtain rfl := List.mem_singleton.mp hpath
  have hinit : pathInit (.lit "o/d/e") .unix = some ⟨.unix, false, false, 0, [.lit "o", .lit "d", .lit "e"]⟩ := by
    decide +kernel
  obtain ⟨buffer, k, hbuffer, hpos, hk, hformat⟩ := hancestor
  obtain rfl := Option.some.inj (hbuffer.symm.trans hinit)
  obtain rfl | rfl : k = 1 ∨ k = 2 := by
    simp only [List.length_cons, List.length_nil] at hk
    omega
  · exact absurd hformat (by decide +kernel)
  · exact absurd hformat (by decide +kernel)

/-- The directory of a former output has become an output file, and is removed. -/
theorem stale_outputs_unsafe : SortsByLength sortByLength ∧ HashedOutputs (outputDag [.lit "a"]) ∧
    driverRemoveStaleOutputs sortByLength (outputDag [.lit "a"]) (some (outputState [.lit "a/b"])) = some
    [.lit "a/b", .lit "a"] ∧
    ¬ RemovesNoOutput sortByLength (outputDag [.lit "a"]) (some (outputState [.lit "a/b"])) := by
  have hremoved : driverRemoveStaleOutputs sortByLength (outputDag [.lit "a"]) (some (outputState [.lit "a/b"])) =
      some [.lit "a/b", .lit "a"] := by
    decide +kernel
  refine ⟨sortsByLength_insertionSort, hashedOutputs_outputDag _, hremoved, fun h => ?_⟩
  refine h _ hremoved (.lit "a") (List.mem_cons_of_mem _ (List.mem_singleton_self _)) ?_
  decide +kernel

end Tundra
