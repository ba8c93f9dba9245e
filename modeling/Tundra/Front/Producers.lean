import Tundra.Front.Dagsave

/-!
# Producers and dependencies

What `setup_input_deps` makes of the nodes. A file that is written twice is an error, and a name that does not
fit a `PathBuffer` ends the program. Otherwise a node gets the producers of its inputs as dependencies, behind
those it had, each once and in the order in which the inputs name them.
-/

namespace Tundra.Front

/-- A node depends on another one: explicitly, or because it reads a file that the other one writes. -/
def DependsOn (host : Host) (nodes : List Node) (node : Node) (d : Nat) : Prop :=
  d ∈ node.deps ∨ ∃ dep, nodes[d]? = some dep ∧
    ∃ input ∈ node.inputs, ∃ output ∈ dep.outputs, host.fileKey input = host.fileKey output

/-- A name that begins with a slash; on Windows also with a backslash, or with a letter, a colon and one of the two. -/
def isAbsoluteName (windows : Bool) : List UInt8 → Bool
  | [] => false
  | c :: rest => c = 47 || windows && (c = 92 || isAlpha c &&
      match rest with
      | colon :: slash :: _ => colon = 58 && (slash = 47 || slash = 92)
      | _ => false)

/-- What stands for a file: its name, behind the current directory unless it is absolute, and in lower case on
`windows` and `macosx`. -/
def nameKey (host : Host) (file : CString) : List UInt8 :=
  let full := if isAbsoluteName (host.platform = .lit "windows") file.bytes then file.bytes
    else host.cwd.bytes ++ file.bytes
  if host.platform = .lit "windows" ∨ host.platform = .lit "macosx" then full.map fun c => if 65 ≤ c ∧
    c ≤ 90 then c + 32 else c
  else full

/-- `PathInit` can take a name apart. -/
def Host.fits (host : Host) (file : CString) : Bool := (pathInit file host.pathType).isSome

variable {host : Host} {nodes : List Node} {producers : List (CString × Nat)}

/-! ### Keys -/

theorem absolute_pathInit {path : CString} {type : PathType} {buffer : PathBuffer}
    (h : pathInit path type = some buffer) :
    buffer.absolute = (pathRoot path type).1 := by
  rcases hroot : pathRoot path type with ⟨absolute, windowsDevicePath, rest⟩
  simp only [pathInit, hroot, Option.bind_eq_bind, Option.bind_eq_some_iff, Option.pure_def, Option.some.injEq] at h
  obtain ⟨segments, -, names, -, rfl⟩ := h
  rfl

theorem producerKey_eq (host : Host) (file : CString) :
    host.producerKey file = if host.fits file then .ok (host.fileKey file) else .error .croak := by
  rw [Host.producerKey, Host.fits]
  cases hinit : pathInit file host.pathType with
  | none => rfl
  | some buffer =>
      rw [Option.isSome_some, if_pos rfl, Host.fileKey, ← absolute_pathInit hinit]

theorem absolute_pathRoot (path : CString) (type : PathType) :
    (pathRoot path type).1 = isAbsoluteName (type = .windows) path.bytes := by
  obtain ⟨bytes, hnul⟩ := path
  cases type with
  | unix =>
      rcases bytes with _ | ⟨c, rest⟩
      · rfl
      · by_cases hslash : c = 47 <;> simp [pathRoot, isAbsoluteName, hslash]
  | windows =>
      rcases bytes with _ | ⟨c, _ | ⟨colon, _ | ⟨slash, rest⟩⟩⟩
      · rfl
      all_goals
        simp only [pathRoot, isAbsoluteName, isSeparator, List.head?_cons, Option.any_some, List.getElem?_cons_zero,
          List.getElem?_cons_succ, List.getElem?_nil]
        grind

theorem bytes_fileKey (host : Host) (file : CString) : (host.fileKey file).bytes = nameKey host file := by
  have hwindows : decide (host.pathType = .windows) = decide (host.platform = .lit "windows") := by
    by_cases h : host.platform = .lit "windows" <;> simp [Host.pathType, h]
  have hfull : (if (pathRoot file host.pathType).1 then file else host.cwd ++ file).bytes =
      if isAbsoluteName (host.platform = .lit "windows") file.bytes then file.bytes
        else host.cwd.bytes ++ file.bytes := by
    rw [absolute_pathRoot, hwindows, apply_ite CString.bytes]
    rfl
  rw [Host.fileKey, Host.key, nameKey, ← hfull]
  by_cases hfold : host.platform = .lit "windows" ∨ host.platform = .lit "macosx"
  · rw [if_pos hfold, if_pos (by simpa [Host.foldsCase] using hfold)]
    rfl
  · rw [if_neg hfold, if_neg (by simpa [Host.foldsCase] using hfold)]

theorem fileKey_eq_iff {a b : CString} : host.fileKey a = host.fileKey b ↔ nameKey host a = nameKey host b := by
  rw [← bytes_fileKey, ← bytes_fileKey]
  exact ⟨congrArg _, CString.ext_bytes⟩

theorem nodup_nameKey {files : List CString} : (files.map (nameKey host)).Nodup ↔ (files.map host.fileKey).Nodup := by
  have hkeys : files.map (nameKey host) = (files.map host.fileKey).map CString.bytes := by
    rw [List.map_map]
    exact List.map_congr_left fun file _ => (bytes_fileKey host file).symm
  rw [hkeys, List.nodup_map_iff fun _ _ => CString.ext_bytes]

/-! ### The producers -/

/-- All output files with the nodes that write them, in the order in which the first loop meets them. -/
def outputNames (nodes : List Node) : List (CString × Nat) :=
  nodes.zipIdx.flatMap fun (node, index) => node.outputs.map fun output => (output, index)

/-- An output file as it is recorded. -/
def producerEntry (host : Host) (name : CString × Nat) : CString × Nat := (host.fileKey name.1, name.2)

theorem map_fst_outputNames (nodes : List Node) : (outputNames nodes).map Prod.fst = nodes.flatMap Node.outputs := by
  have hnames : ∀ pairs : List (Node × Nat),
    (pairs.flatMap fun pair => pair.1.outputs.map fun output => (output, pair.2)).map Prod.fst =
      (pairs.map Prod.fst).flatMap Node.outputs := by
    intro pairs
    induction pairs with
    | nil => rfl
    | cons pair pairs ih =>
        rw [List.flatMap_cons, List.map_append, ih, List.map_cons, List.flatMap_cons, List.map_map]
        exact congrArg (· ++ _) (List.map_id _)
  have hall := hnames nodes.zipIdx
  rw [List.zipIdx_map_fst] at hall
  exact hall

/-- The loops over the nodes and over their outputs are one loop. -/
theorem recordProducers_eq (host : Host) (nodes : List Node) :
    recordProducers host nodes = (outputNames nodes).foldlM
    (fun producers name => recordProducer host name.2 producers name.1) [] := by
  have hloops : ∀ (pairs : List (Node × Nat)) (start : List (CString × Nat)),
      pairs.foldlM (fun producers (node, index) => node.outputs.foldlM (recordProducer host index) producers) start =
      (pairs.flatMap fun (node, index) => node.outputs.map fun output => (output, index)).foldlM
        (fun producers name => recordProducer host name.2 producers name.1) start := by
    intro pairs
    induction pairs with
    | nil => exact fun start => rfl
    | cons pair pairs ih =>
        intro start
        rw [List.foldlM_cons, List.flatMap_cons, List.foldlM_append, List.foldlM_map]
        exact congrArg _ (funext fun mid => ih mid)
  exact hloops nodes.zipIdx []

theorem lookup_isSome_iff {pairs : List (CString × Nat)} {key : CString} :
    (pairs.lookup key).isSome ↔ key ∈ pairs.map Prod.fst := by
  induction pairs with
  | nil => simp
  | cons pair pairs ih =>
      rw [List.lookup_cons, List.map_cons, List.mem_cons]
      by_cases hkey : key = pair.1
      · simp [hkey]
      · have hbeq : (key == pair.1) = false := by simpa using hkey
        simp [hbeq, ih, hkey]

theorem lookup_eq_some_iff {α : Type} {pairs : List (CString × α)} {key : CString} {value : α}
    (hnodup : (pairs.map Prod.fst).Nodup) :
    pairs.lookup key = some value ↔ (key, value) ∈ pairs := by
  induction pairs with
  | nil => simp
  | cons pair pairs ih =>
      obtain ⟨k, v⟩ := pair
      rw [List.map_cons, List.nodup_cons] at hnodup
      by_cases hk : key = k
      · subst hk
        have hnot : (key, value) ∉ pairs := fun h => hnodup.1 (List.mem_map.mpr ⟨_, h, rfl⟩)
        simp [List.lookup_cons_self, hnot, eq_comm]
      · have hbeq : (key == k) = false := by simpa using hk
        simp [List.lookup_cons, hbeq, ih hnodup.2, hk]

theorem recordProducer_eq (host : Host) (start : List (CString × Nat)) (name : CString × Nat) :
    recordProducer host name.2 start name.1 =
      if host.fits name.1 then if host.fileKey name.1 ∈ start.map Prod.fst then .error .raised else .ok
      (producerEntry host name :: start)
      else .error .croak := by
  rw [recordProducer, producerKey_eq]
  by_cases hfits : host.fits name.1 = true
  · rw [if_pos hfits, if_pos hfits]
    simp only [← lookup_isSome_iff]
    rfl
  · rw [if_neg hfits, if_neg hfits]
    rfl

/-- The loop goes through if and only if every name fits and no key occurs twice. It raises an error if a key
occurs twice before a name that does not fit. -/
theorem foldlM_recordProducer (host : Host) (names : List (CString × Nat)) :
    ∀ start : List (CString × Nat), (start.map Prod.fst).Nodup →
    (∀ result, names.foldlM (fun producers name => recordProducer host name.2 producers name.1) start = .ok result ↔
      (∀ name ∈ names, host.fits name.1 = true) ∧
      (((names.map (producerEntry host)).reverse ++ start).map Prod.fst).Nodup ∧
        (names.map (producerEntry host)).reverse ++ start = result) ∧
    (names.foldlM (fun producers name => recordProducer host name.2 producers name.1) start = .error .raised ↔
      ¬((((names.takeWhile fun name => host.fits name.1).map (producerEntry host)).reverse ++ start).map Prod.fst).Nodup) := by
  induction names with
  | nil =>
      exact fun start hstart => ⟨fun result => by simp [hstart, pure, Except.pure], by simp [hstart, pure, Except.pure]⟩
  | cons name names ih =>
      intro start hstart
      have hcons : ∀ rest : List (CString × Nat), ((name :: rest).map (producerEntry host)).reverse ++ start =
          (rest.map (producerEntry host)).reverse ++ producerEntry host name :: start := fun rest => by simp
      rw [List.foldlM_cons, recordProducer_eq]
      by_cases hfits : host.fits name.1 = true
      · rw [if_pos hfits, List.takeWhile_cons_of_pos (p := fun name : CString × Nat => host.fits name.1) hfits, hcons,
          hcons]
        by_cases hold : host.fileKey name.1 ∈ start.map Prod.fst
        · have htwice : ∀ rest : List (CString × Nat),
              ¬(((rest.map (producerEntry host)).reverse ++ producerEntry host name :: start).map Prod.fst).Nodup := by
            intro rest hnodup
            rw [List.map_append, List.map_cons] at hnodup
            exact (List.nodup_cons.mp hnodup.of_append_right).1 hold
          rw [if_pos hold]
          refine ⟨fun result => ?_, iff_of_true rfl (htwice _)⟩
          exact iff_of_false (fun h => by cases h) fun h => htwice _ h.2.1
        · rw [if_neg hold]
          obtain ⟨hok, hraised⟩ := ih (producerEntry host name :: start) (List.nodup_cons.mpr ⟨hold, hstart⟩)
          refine ⟨fun result => (hok result).trans ?_, hraised⟩
          rw [List.forall_mem_cons, and_iff_right hfits]
      · rw [if_neg hfits, List.takeWhile_cons_of_neg (p := fun name : CString × Nat => host.fits name.1) hfits]
        refine ⟨fun result => ?_, iff_of_false (fun h => by cases h) (not_not.mpr hstart)⟩
        exact iff_of_false (fun h => by cases h) fun h => hfits (h.1 name List.mem_cons_self)

theorem recordProducers_eq_ok {result : List (CString × Nat)} :
    recordProducers host nodes = .ok result ↔
      (∀ name ∈ outputNames nodes, host.fits name.1 = true) ∧
      ((outputNames nodes).map (producerEntry host)).reverse = result ∧
        (result.map Prod.fst).Nodup := by
  rw [recordProducers_eq, (foldlM_recordProducer host (outputNames nodes) [] List.nodup_nil).1, List.append_nil]
  constructor
  · rintro ⟨hfits, hnodup, rfl⟩
    exact ⟨hfits, rfl, hnodup⟩
  · rintro ⟨hfits, rfl, hnodup⟩
    exact ⟨hfits, hnodup, rfl⟩

/-- The producer of a key is the node that has an output with this key. -/
theorem lookup_producers (h : recordProducers host nodes = .ok producers) {key : CString} {d : Nat} :
    producers.lookup key = some d ↔ ∃ node, nodes[d]? = some node ∧
    ∃ output ∈ node.outputs, key = host.fileKey output := by
  obtain ⟨-, rfl, hnodup⟩ := recordProducers_eq_ok.mp h
  rw [lookup_eq_some_iff hnodup, List.mem_reverse, List.mem_map]
  constructor
  · rintro ⟨⟨output, index⟩, hname, hentry⟩
    obtain ⟨rfl, rfl⟩ := Prod.mk.inj hentry
    obtain ⟨⟨node, index⟩, hnode, houtput⟩ := List.mem_flatMap.mp hname
    obtain ⟨written, hwritten, hpair⟩ := List.mem_map.mp houtput
    obtain ⟨rfl, rfl⟩ := Prod.mk.inj hpair
    exact ⟨node, List.mk_mem_zipIdx_iff_getElem?.mp hnode, written, hwritten, rfl⟩
  · rintro ⟨node, hnode, output, houtput, rfl⟩
    refine ⟨(output, d), List.mem_flatMap.mpr ⟨(node, d), List.mk_mem_zipIdx_iff_getElem?.mpr hnode, ?_⟩, rfl⟩
    exact List.mem_map.mpr ⟨output, houtput, rfl⟩

/-! ### The dependencies -/

/-- The second loop for one node, when every input has its key. -/
def withProducers (host : Host) (producers : List (CString × Nat)) (node : Node) : Node :=
  { node with deps := node.inputs.foldl (fun deps input =>
      match producers.lookup (host.fileKey input) with
      | some producer => if producer ∈ deps then deps else deps ++ [producer]
      | none => deps) node.deps }

theorem foldlM_addProducer (host : Host) (producers : List (CString × Nat)) (inputs : List CString) : ∀ deps : List Nat,
    inputs.foldlM (addProducer host producers) deps =
      if ∀ input ∈ inputs, host.fits input = true then
        .ok (inputs.foldl (fun deps input =>
          match producers.lookup (host.fileKey input) with
          | some producer => if producer ∈ deps then deps else deps ++ [producer]
          | none => deps) deps)
      else .error .croak := by
  induction inputs with
  | nil => exact fun deps => by simp [pure, Except.pure]
  | cons input inputs ih =>
      intro deps
      rw [List.foldlM_cons, addProducer, producerKey_eq]
      by_cases hfits : host.fits input = true
      · simp only [hfits, if_true, List.forall_mem_cons, true_and, List.foldl_cons]
        rw [← ih]
        cases hlookup : producers.lookup (host.fileKey input) with
        | none => simp only [bind, Except.bind, pure, Except.pure, hlookup]
        | some producer => simp only [bind, Except.bind, pure, Except.pure, hlookup]
      · rw [if_neg hfits, if_neg fun h => hfits (h input List.mem_cons_self)]
        rfl

theorem addProducers_eq (host : Host) (producers : List (CString × Nat)) (node : Node) :
    addProducers host producers node =
      if ∀ input ∈ node.inputs, host.fits input = true then .ok (withProducers host producers node)
      else .error .croak := by
  rw [addProducers, foldlM_addProducer]
  split_ifs
  · rfl
  · rfl

theorem addProducers_eq_ok {node node' : Node} :
    addProducers host producers node = .ok node' ↔ (∀ input ∈ node.inputs, host.fits input = true) ∧
    withProducers host producers node = node' := by
  rw [addProducers_eq]
  split_ifs with hfits
  · rw [Except.ok.injEq, and_iff_right hfits]
  · exact iff_of_false (fun h => by cases h) fun h => hfits h.1

theorem setupInputDeps_eq_ok {nodes' : List Node} :
    setupInputDeps host nodes = .ok nodes' ↔ ∃ producers, recordProducers host nodes = .ok producers ∧
      (∀ node ∈ nodes, ∀ input ∈ node.inputs, host.fits input = true) ∧ nodes.map
      (withProducers host producers) = nodes' := by
  rw [setupInputDeps, Checked.bind_eq_ok]
  refine exists_congr fun producers => and_congr_right fun _ => ?_
  rw [Checked.mapM_eq_ok]
  simp only [addProducers_eq_ok]
  constructor
  · intro h
    refine ⟨fun node hnode => ?_, ?_⟩
    · obtain ⟨n, hn⟩ := List.mem_iff_getElem?.mp hnode
      obtain ⟨node', -, hfits, -⟩ := Checked.getElem?_of_forall₂ h hn
      exact hfits
    · have hmap := Checked.map_eq_map h (f := withProducers host producers) (g := id) fun node _ node' hnode => hnode.2
      rwa [List.map_id] at hmap
  · rintro ⟨hfits, rfl⟩
    rw [List.forall₂_map_right_iff, List.forall₂_same]
    exact fun node hnode => ⟨hfits node hnode, rfl⟩

theorem mem_foldl_producers {inputs : List CString} {d : Nat} : ∀ deps : List Nat,
    d ∈ inputs.foldl (fun deps input =>
      match producers.lookup (host.fileKey input) with
      | some producer => if producer ∈ deps then deps else deps ++ [producer]
      | none => deps) deps ↔ d ∈ deps ∨ ∃ input ∈ inputs, producers.lookup (host.fileKey input) = some d := by
  induction inputs with
  | nil => simp
  | cons input inputs ih =>
      intro deps
      rw [List.foldl_cons, ih]
      cases hproducer : producers.lookup (host.fileKey input) with
      | none => simp [hproducer]
      | some producer =>
          simp only [List.mem_cons, exists_eq_or_imp, hproducer, Option.some.injEq]
          split_ifs with hin
          · constructor
            · tauto
            · rintro (h | rfl | h)
              · exact .inl h
              · exact .inl hin
              · exact .inr h
          · rw [List.mem_append, List.mem_singleton, or_assoc, eq_comm]

theorem setupInputDeps_spec {nodes' : List Node} (h : setupInputDeps host nodes = .ok nodes') :
    nodes'.length = nodes.length ∧ ∀ (n : Nat) (node : Node), nodes[n]? = some node → ∃ node', nodes'[n]? = some node' ∧
      node'.pass = node.pass ∧ ∀ d, d ∈ node'.deps ↔ DependsOn host nodes node d := by
  obtain ⟨producers, hproducers, -, rfl⟩ := setupInputDeps_eq_ok.mp h
  refine ⟨List.length_map _, fun n node hn => ⟨withProducers host producers node, by simp [hn], rfl, fun d => ?_⟩⟩
  refine (mem_foldl_producers node.deps).trans ?_
  simp only [lookup_producers hproducers, DependsOn]
  tauto

/-- An error of the script is a file that is written twice; nothing else is one. -/
theorem setupInputDeps_raised_iff : setupInputDeps host nodes = .error .raised ↔
    ¬(((nodes.flatMap Node.outputs).takeWhile host.fits).map (nameKey host)).Nodup := by
  have hrecord : setupInputDeps host nodes = .error .raised ↔ recordProducers host nodes = .error .raised := by
    rw [setupInputDeps, Checked.bind_eq_error]
    refine or_iff_left ?_
    rintro ⟨producers, -, h⟩
    obtain ⟨node, -, hnode⟩ := Checked.mem_of_mapM_eq_error h
    rw [addProducers_eq] at hnode
    split_ifs at hnode
    cases hnode
  have hkeys : (((outputNames nodes).takeWhile fun name => host.fits name.1).map (producerEntry host)).map Prod.fst =
      (((nodes.flatMap Node.outputs).takeWhile host.fits).map host.fileKey) := by
    rw [← map_fst_outputNames, List.takeWhile_map, List.map_map, List.map_map]
    rfl
  rw [hrecord, recordProducers_eq, (foldlM_recordProducer host (outputNames nodes) [] List.nodup_nil).2,
    List.append_nil, List.map_reverse,
    List.nodup_reverse, hkeys, ← nodup_nameKey]

/-- The first node that writes a file with this key. -/
def producer (host : Host) (nodes : List Node) (key : List UInt8) : Option Nat :=
  nodes.findIdx? fun node => node.outputs.any fun output => nameKey host output = key

def inputProducers (host : Host) (nodes : List Node) (node : Node) : List Nat :=
  node.inputs.filterMap fun input => producer host nodes (nameKey host input)

theorem lookup_eq_producer (h : recordProducers host nodes = .ok producers) (file : CString) :
    producers.lookup (host.fileKey file) = producer host nodes (nameKey host file) := by
  cases hfound : producer host nodes (nameKey host file) with
  | none =>
      rw [producer, List.findIdx?_eq_none_iff] at hfound
      rw [Option.eq_none_iff_forall_ne_some]
      intro d hd
      obtain ⟨node, hnode, output, houtput, hkey⟩ := (lookup_producers h).mp hd
      have hnone := hfound node (List.mem_of_getElem? hnode)
      rw [List.any_eq_false] at hnone
      exact hnone output houtput (decide_eq_true (fileKey_eq_iff.mp hkey.symm))
  | some d =>
      rw [producer, List.findIdx?_eq_some_iff_getElem] at hfound
      obtain ⟨hlt, hany, -⟩ := hfound
      obtain ⟨output, houtput, hkey⟩ := List.any_eq_true.mp hany
      exact (lookup_producers h).mpr
        ⟨nodes[d], List.getElem?_eq_getElem hlt, output, houtput, (fileKey_eq_iff.mpr (of_decide_eq_true hkey)).symm⟩

/-- Appending what is not there yet, seen from behind the list one began with. -/
theorem foldl_append_new {α : Type} [DecidableEq α] (deps : List α) (l : List α) : ∀ added : List α,
    l.foldl (fun result val => if val ∈ result then result else result ++ [val]) (deps ++ added) =
      deps ++ (l.filter (· ∉ deps)).foldl
      (fun result val => if val ∈ result then result else result ++ [val]) added := by
  induction l with
  | nil => exact fun added => rfl
  | cons val l ih =>
      intro added
      rw [List.foldl_cons]
      by_cases hdeps : val ∈ deps
      · rw [if_pos (List.mem_append_left _ hdeps), List.filter_cons_of_neg (by simpa using hdeps)]
        exact ih added
      · rw [List.filter_cons_of_pos (by simpa using hdeps), List.foldl_cons]
        by_cases hadded : val ∈ added
        · rw [if_pos (List.mem_append_right _ hadded), if_pos hadded]
          exact ih added
        · rw [if_neg (by simp [hdeps, hadded]), if_neg hadded, List.append_assoc]
          exact ih (added ++ [val])

theorem withProducers_eq (h : recordProducers host nodes = .ok producers) (node : Node) :
    withProducers host producers node =
      { node with deps := node.deps ++ uniq ((inputProducers host nodes node).filter (· ∉ node.deps)) } := by
  have hloop : ∀ (inputs : List CString) (deps : List Nat),
      (withProducers host producers { node with inputs := inputs, deps := deps }).deps =
        (inputs.filterMap fun input => producer host nodes (nameKey host input)).foldl
          (fun result val => if val ∈ result then result else result ++ [val]) deps := by
    intro inputs
    simp only [withProducers]
    induction inputs with
    | nil => exact fun deps => rfl
    | cons input inputs ih =>
        intro deps
        rw [List.foldl_cons, ih, List.filterMap_cons, lookup_eq_producer h]
        cases producer host nodes (nameKey host input) <;> rfl
  have hnew := foldl_append_new node.deps (inputProducers host nodes node) []
  rw [List.append_nil] at hnew
  exact congrArg (fun deps => { node with deps := deps }) ((hloop node.inputs node.deps).trans hnew)

theorem fits_all_iff : (∀ node ∈ nodes, ∀ file ∈ node.outputs ++ node.inputs, host.fits file = true) ↔
    (∀ name ∈ outputNames nodes, host.fits name.1 = true) ∧
    ∀ node ∈ nodes, ∀ input ∈ node.inputs, host.fits input = true := by
  have houtputs : (∀ name ∈ outputNames nodes, host.fits name.1 = true) ↔
    ∀ node ∈ nodes, ∀ file ∈ node.outputs, host.fits file = true := by
    have hmap : (∀ name ∈ outputNames nodes, host.fits name.1 = true) ↔
      ∀ file ∈ (outputNames nodes).map Prod.fst, host.fits file = true :=
      (List.forall_mem_map (P := fun file => host.fits file = true)).symm
    rw [hmap, map_fst_outputNames]
    simp only [List.mem_flatMap]
    exact ⟨fun h node hnode file hfile => h file ⟨node, hnode, hfile⟩,
      fun h file ⟨node, hnode, hfile⟩ => h node hnode file hfile⟩
  rw [houtputs]
  simp only [List.mem_append]
  exact ⟨fun h => ⟨fun node hnode file hfile => h node hnode file (.inl hfile),
    fun node hnode file hfile => h node hnode file (.inr hfile)⟩,
    fun h node hnode file hfile => hfile.elim (h.1 node hnode file) (h.2 node hnode file)⟩

/-- A node that depends on these nodes, reads these files and writes these. -/
def Node.files (deps : List Nat) (inputs outputs : List CString) : Node :=
  ⟨.default, none, deps, inputs, outputs, false, false, true, [], [], .lit "run", none, .lit "?"⟩

def Host.unix : Host := ⟨.lit "/", .lit "linux"⟩

def Host.windows : Host := ⟨.lit "C:\\Dir\\", .lit "windows"⟩

/-- Two nodes that write a file each, and one that reads both under other names and depends on the second one. -/
def spelledNodes : List Node :=
  [.files [] [] [.lit "Out\\A"], .files [] [] [.lit "b"],
    .files [1] [.lit "c:\\dir\\out\\a", .lit "B", .lit "OUT\\a"] [.lit "d"]]

def longName : CString := ⟨(List.replicate 65 [97, 47]).flatten, by decide⟩

end Tundra.Front
