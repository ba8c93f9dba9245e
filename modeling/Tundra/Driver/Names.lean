import Tundra.Driver.Select
import Tundra.PathUtil.NormalForm

/-!
# Nodes by name

What `FindNodesByName` finds, against a search that looks at every node that can be reached. A name that is no
named node is brought to its normal form, but the search goes on with that form only when it is below the
current directory.
-/

namespace Tundra

/-! ### The search as it is meant -/

/-- An input or an output of a node. -/
def DagData.hasFile (dag : DagData) (index : Nat) (filename : CString) : Prop :=
  ∃ file ∈ (dag.node index).inputFiles ++ (dag.node index).outputFiles, file.filename = filename

/-- A node that can be reached from the named nodes of a tuple. -/
def InTuple (dag : DagData) (tuple : BuildTupleData) (index : Nat) : Prop :=
  ∃ named ∈ tuple.namedNodes, Marking.Reachable dag.dependencies named.nodeIndex index

/-- The lowest node of a tuple that has a file. -/
def IsLowest (dag : DagData) (tuple : BuildTupleData) (filename : CString) (index : Nat) : Prop :=
  InTuple dag tuple index ∧ dag.hasFile index filename ∧ ∀ below < index, InTuple dag tuple below →
    ¬dag.hasFile below filename

/-- The lowest node of a tuple that has a file, if there is one. -/
def LowestWith (dag : DagData) (tuple : BuildTupleData) (filename : CString) (found : Option Nat) : Prop :=
  ∀ index, found = some index ↔ IsLowest dag tuple filename index

/-- The text in front of what is below a directory. The root has its slash already. -/
def directoryPrefix (cwd : CString) : CString := if cwd.bytes.getLast? = some 47 then cwd else cwd ++ CString.lit "/"

/-- A path in normal form, made relative to the current directory. -/
def relativeTo (cwd pathFmt : CString) : CString :=
  if pathFmt = cwd then CString.lit ""
  else if (directoryPrefix cwd).bytes <+: pathFmt.bytes then
    pathFmt.slice (directoryPrefix cwd).bytes.length pathFmt.bytes.length
  else pathFmt

/-- What a name selects: its named node, or else the lowest node with the file. -/
def NamesNode (cwd : CString) (dag : DagData) (tuple : BuildTupleData) (name : CString) (found : Option Nat) : Prop :=
  (∃ named, tuple.namedNodes.find? (·.name = name) = some named ∧ found = some named.nodeIndex) ∨
    (tuple.namedNodes.find? (·.name = name) = none ∧
      ∃ pathFmt, pathNormalize name .unix = some pathFmt ∧ LowestWith dag tuple (relativeTo cwd pathFmt) found)

/-! ### The condition -/

/-- The file that is looked for: what is left of a normal form below the current directory, or the name as it
was typed. -/
def searchedFile (cwd name pathFmt : CString) : CString :=
  if (cwd ++ CString.lit "/").bytes <+: pathFmt.bytes then
    pathFmt.slice (cwd ++ CString.lit "/").bytes.length pathFmt.bytes.length else name

/-- Two files are found at the same node: the first node with one of them has the other one too. -/
def SameNode (dag : DagData) (tuple : BuildTupleData) (file file' : CString) : Prop :=
  ∀ index, InTuple dag tuple index → dag.hasFile index file ∨ dag.hasFile index file' →
    ∃ first ≤ index, InTuple dag tuple first ∧ dag.hasFile first file ∧ dag.hasFile first file'

/-- A name is one of a named node, or fits a path buffer and is below the current directory, typed in its normal
form, or not to be found either way. -/
def FoundAsMeant (cwd : CString) (dag : DagData) (tuple : BuildTupleData) (name : CString) : Prop :=
  (∃ named ∈ tuple.namedNodes, named.name = name) ∨
    ∃ pathFmt, pathNormalize name .unix = some pathFmt ∧
      (searchedFile cwd name pathFmt = relativeTo cwd pathFmt ∨
        SameNode dag tuple (searchedFile cwd name pathFmt) (relativeTo cwd pathFmt))

/-- The indices of a DAG are in range, and the hashes of its files are those of their names. -/
structure DagData.Searchable (dag : DagData) (tuple : BuildTupleData) : Prop where
  dependencies : ∀ node ∈ dag.nodeData, ∀ index ∈ node.dependencies, index < dag.nodeCount
  namedNodes : ∀ named ∈ tuple.namedNodes, named.nodeIndex < dag.nodeCount
  hashes : ∀ node ∈ dag.nodeData, ∀ file ∈ node.inputFiles ++ node.outputFiles, file.filenameHash =
    djb2HashPath file.filename

/-! ### The loop over the words of a bit set -/

theorem mem_bitSetIndices {n : Nat} {nodeBits : BitSet n} {index : Nat} :
    index ∈ bitSetIndices nodeBits ↔ nodeBits.test index = true := by
  refine ⟨test_of_mem_bitSetIndices, fun h => ?_⟩
  rw [BitSet.test_eq_true_iff, List.getD_eq_getElem?_getD] at h
  cases hword : nodeBits.words[index / 32]? with
  | none =>
      rw [hword] at h
      simp at h
  | some word =>
      rw [hword, Option.getD_some] at h
      refine List.mem_flatMap.mpr ⟨(word, index / 32), List.mk_mem_zipIdx_iff_getElem?.mpr hword, ?_⟩
      exact List.mem_map.mpr ⟨index % 32, mem_bitIndices.mpr h, Nat.div_add_mod index 32⟩

theorem pairwise_bitSetIndices {n : Nat} (nodeBits : BitSet n) : (bitSetIndices nodeBits).Pairwise (· < ·) := by
  rw [bitSetIndices, List.pairwise_flatMap]
  constructor
  · intro word _
    rw [List.pairwise_map]
    exact (pairwise_bitIndices word.1).imp fun hlt => by omega
  · -- the words come one after the other
    have hzip : (nodeBits.words.zipIdx).Pairwise fun word word' => word.2 < word'.2 := by
      rw [← List.pairwise_map, List.zipIdx_map_snd]
      exact List.pairwise_lt_range'
    refine hzip.imp fun hlt => ?_
    intro x hx y hy
    obtain ⟨bit, hbit, rfl⟩ := List.mem_map.mp hx
    obtain ⟨bit', hbit', rfl⟩ := List.mem_map.mp hy
    have hbound := BitVec.lt_of_getLsbD (mem_bitIndices.mp hbit)
    omega

/-- In ascending order, the first number that passes a test is the lowest one. -/
theorem find?_ascending {l : List Nat} (hl : l.Pairwise (· < ·)) (p : Nat → Bool) (index : Nat) :
    l.find? p = some index ↔ index ∈ l ∧ p index = true ∧ ∀ below < index, below ∈ l → p below = false := by
  induction l with
  | nil => simp
  | cons a l ih =>
      obtain ⟨ha, hl⟩ := List.pairwise_cons.mp hl
      rw [List.find?_cons]
      cases hp : p a with
      | true =>
          constructor
          · rintro heq
            obtain rfl : a = index := Option.some.inj heq
            refine ⟨List.mem_cons_self, hp, fun below hlt hmem => ?_⟩
            rcases List.mem_cons.mp hmem with rfl | hmem
            · omega
            · exact absurd (ha below hmem) (by omega)
          · rintro ⟨hmem, -, hbelow⟩
            rcases List.mem_cons.mp hmem with rfl | hmem
            · rfl
            · rw [hbelow a (ha index hmem) List.mem_cons_self] at hp
              cases hp
      | false =>
          have hne : ∀ {i}, p i = true → i ≠ a := by
            rintro i hi rfl
            rw [hp] at hi
            cases hi
          show l.find? p = some index ↔ _
          rw [ih hl]
          constructor
          · rintro ⟨hmem, hindex, hbelow⟩
            refine ⟨List.mem_cons_of_mem a hmem, hindex, fun below hlt hmem' => ?_⟩
            rcases List.mem_cons.mp hmem' with rfl | hmem'
            · exact hp
            · exact hbelow below hlt hmem'
          · rintro ⟨hmem, hindex, hbelow⟩
            rcases List.mem_cons.mp hmem with rfl | hmem
            · exact absurd rfl (hne hindex)
            · exact ⟨hmem, hindex, fun below hlt hmem' => hbelow below hlt (List.mem_cons_of_mem a hmem')⟩

/-! ### One name -/

variable {cwd : CString} {dag : DagData} {tuple : BuildTupleData} {names : List CString} {name : CString} {index : Nat}

theorem DagData.Searchable.dependencies_lt (hdag : dag.Searchable tuple) :
    ∀ index ∈ Finset.range dag.nodeCount, ∀ dep ∈ dag.dependencies index, dep ∈ Finset.range dag.nodeCount := by
  intro index hindex dep hdep
  rw [Finset.mem_range] at hindex ⊢
  exact hdag.dependencies _ (DagData.node_mem hindex) dep hdep

theorem DagData.Searchable.inTuple_lt (hdag : dag.Searchable tuple) (h : InTuple dag tuple index) :
    index < dag.nodeCount := by
  obtain ⟨named, hnamed, hreach⟩ := h
  induction hreach with
  | refl => exact hdag.namedNodes named hnamed
  | tail _ hedge ih => exact Finset.mem_range.mp (hdag.dependencies_lt _ (Finset.mem_range.mpr ih) _ hedge)

/-- The comparison of hashes and names finds the files of a node. -/
theorem DagData.Searchable.namesFile_iff (hdag : dag.Searchable tuple) (hindex : index < dag.nodeCount)
    (filename : CString) :
    (namesFile filename (dag.node index).inputFiles || namesFile filename (dag.node index).outputFiles) = true ↔
    dag.hasFile index filename := by
  have hany : (namesFile filename (dag.node index).inputFiles || namesFile filename (dag.node index).outputFiles) =
      namesFile filename ((dag.node index).inputFiles ++ (dag.node index).outputFiles) := List.any_append.symm
  rw [hany, namesFile, List.any_eq_true, hasFile]
  refine exists_congr fun file => and_congr_right fun hfile => ?_
  rw [decide_eq_true_eq]
  refine ⟨And.right, fun heq => ⟨?_, heq⟩⟩
  rw [hdag.hashes _ (DagData.node_mem hindex) file hfile, heq]

/-- The search finds the lowest node with the file it looks for. -/
theorem DagData.Searchable.search (hdag : dag.Searchable tuple) (filename : CString) :
    ∃ nodeBits, findReachableNodes dag tuple = some nodeBits ∧ LowestWith dag tuple filename
    ((bitSetIndices nodeBits).find? fun index =>
      namesFile filename (dag.node index).inputFiles || namesFile filename (dag.node index).outputFiles) := by
  obtain ⟨nodeBits, hbits, hexact⟩ := findReachableNodes_spec hdag.dependencies_lt hdag.namedNodes
  refine ⟨nodeBits, hbits, fun index => ?_⟩
  rw [find?_ascending (pairwise_bitSetIndices nodeBits), mem_bitSetIndices, hexact, IsLowest]
  refine and_congr_right fun hindex => and_congr (hdag.namesFile_iff (hdag.inTuple_lt hindex) filename) ?_
  refine forall_congr' fun below => forall_congr' fun hlt => ?_
  rw [mem_bitSetIndices, hexact]
  refine forall_congr' fun hbelow => ?_
  rw [← hdag.namesFile_iff (hdag.inTuple_lt hbelow) filename, Bool.not_eq_true]

theorem SameNode.symm {file file' : CString} (h : SameNode dag tuple file file') : SameNode dag tuple file' file := by
  intro index hindex hfiles
  obtain ⟨first, hle, htuple, hfile, hfile'⟩ := h index hindex hfiles.symm
  exact ⟨first, hle, htuple, hfile', hfile⟩

theorem IsLowest.of_sameNode {file file' : CString} (hsame : SameNode dag tuple file file')
    (h : IsLowest dag tuple file index) :
    IsLowest dag tuple file' index := by
  obtain ⟨hindex, hfile, hbelow⟩ := h
  have hfirst : ∀ below ≤ index, InTuple dag tuple below → dag.hasFile below file ∨ dag.hasFile below file' →
      below = index ∧ dag.hasFile index file' := by
    intro below hle hin hfiles
    obtain ⟨first, hfirst, htuple, hhas, hhas'⟩ := hsame below hin hfiles
    have hge : ¬first < index := fun hlt => hbelow first hlt htuple hhas
    obtain rfl : first = index := by omega
    exact ⟨by omega, hhas'⟩
  refine ⟨hindex, (hfirst index le_rfl hindex (.inl hfile)).2, fun below hlt hin hhas => ?_⟩
  have heq := (hfirst below hlt.le hin (.inr hhas)).1
  omega

/-- What is found is at or below every node with the file. -/
theorem LowestWith.le {file : CString} {found : Option Nat} (h : LowestWith dag tuple file found)
    (hindex : InTuple dag tuple index) (hfile : dag.hasFile index file) : ∃ first ≤ index, found = some first := by
  classical
  have hsome : ∃ index, InTuple dag tuple index ∧ dag.hasFile index file := ⟨index, hindex, hfile⟩
  have hlowest : IsLowest dag tuple file (Nat.find hsome) := by
    obtain ⟨htuple, hhas⟩ := Nat.find_spec hsome
    exact ⟨htuple, hhas, fun below hlt hbelow hfile => Nat.find_min hsome hlt ⟨hbelow, hfile⟩⟩
  exact ⟨Nat.find hsome, Nat.find_min' hsome ⟨hindex, hfile⟩, (h _).mpr hlowest⟩

/-- The lowest nodes with two files are one node where the first node with one of them has both. -/
theorem LowestWith.same_iff {file file' : CString} {found : Option Nat} (h : LowestWith dag tuple file found) :
    LowestWith dag tuple file' found ↔ SameNode dag tuple file file' := by
  constructor
  · intro h' index hindex hfiles
    have hfirst : ∃ first ≤ index, found = some first := hfiles.elim (h.le hindex) (h'.le hindex)
    obtain ⟨first, hle, hfound⟩ := hfirst
    exact ⟨first, hle, ((h first).mp hfound).1, ((h first).mp hfound).2.1, ((h' first).mp hfound).2.1⟩
  · intro hsame index
    rw [h index]
    exact ⟨.of_sameNode hsame, .of_sameNode hsame.symm⟩

theorem mapFilename_eq (cwd name : CString) :
    mapFilename cwd name = (pathNormalize name .unix).map (searchedFile cwd name) := by
  rw [mapFilename, pathNormalize]
  cases hpath : pathInit name .unix with
  | none => rfl
  | some path =>
      show (do let pathFmt ← pathFormat path; _) = (pathFormat path).map _
      cases hfmt : pathFormat path with
      | none => rfl
      | some pathFmt =>
          show (if _ then _ else _) = some (searchedFile cwd name pathFmt)
          rw [searchedFile]
          split <;> rfl

/-- What one turn of the loop does, and when that is what the name means. -/
theorem DagData.Searchable.findNodeByName_iff (hdag : dag.Searchable tuple) (cwd name : CString) :
    (∃ found, findNodeByName cwd dag tuple name = some found ∧ NamesNode cwd dag tuple name found) ↔
    FoundAsMeant cwd dag tuple name := by
  have hnamed : (∃ named ∈ tuple.namedNodes, named.name = name) ↔
    (tuple.namedNodes.find? (·.name = name)).isSome = true := by
    rw [List.find?_isSome]
    simp
  rw [FoundAsMeant, hnamed, findNodeByName]
  cases hfind : tuple.namedNodes.find? (·.name = name) with
  | some named =>
      have hmeant : NamesNode cwd dag tuple name (some named.nodeIndex) := .inl ⟨named, hfind, rfl⟩
      exact iff_of_true ⟨_, rfl, hmeant⟩ (.inl rfl)
  | none =>
      have hmeant : ∀ found, NamesNode cwd dag tuple name found ↔
          ∃ pathFmt, pathNormalize name .unix = some pathFmt ∧ LowestWith dag tuple (relativeTo cwd pathFmt) found := by
        intro found
        rw [NamesNode, hfind]
        simp
      simp only [hmeant, Option.isSome_none, Bool.false_eq_true, false_or, mapFilename_eq]
      cases hpath : pathNormalize name .unix with
      | none => simp
      | some pathFmt =>
          obtain ⟨nodeBits, hbits, hlowest⟩ := hdag.search (searchedFile cwd name pathFmt)
          simp only [hbits, Option.map_some, Option.some.injEq, exists_eq_left', bind, Option.bind, pure]
          rw [hlowest.same_iff]
          refine ⟨.inr, ?_⟩
          rintro (heq | hsame)
          · rw [← heq]
            exact fun index hindex hfiles => ⟨index, le_rfl, hindex, hfiles.elim id id, hfiles.elim id id⟩
          · exact hsame

/-! ### All names -/

/-- `FindNodesByName` appends, for each name in turn, the node it means, and nothing for a name that means none. -/
def SelectsByName (cwd : CString) (dag : DagData) (tuple : BuildTupleData) (names : List CString) : Prop :=
  ∃ found, names.mapM (findNodeByName cwd dag tuple) = some found ∧
    findNodesByName cwd dag names tuple = some found.reduceOption ∧
    List.Forall₂ (NamesNode cwd dag tuple) names found

theorem forall₂_mapM {α β : Type} {f : α → Option β} {R : α → β → Prop} (l : List α) :
    (∃ found, l.mapM f = some found ∧ List.Forall₂ R l found) ↔ ∀ a ∈ l, ∃ b, f a = some b ∧ R a b := by
  induction l with
  | nil => simp
  | cons a l ih =>
      rw [List.forall_mem_cons, ← ih]
      constructor
      · rintro ⟨found, hfound, hall⟩
        rw [List.mapM_cons] at hfound
        obtain ⟨b, hb, hfound⟩ := Option.bind_eq_some_iff.mp hfound
        obtain ⟨rest, hrest, hfound⟩ := Option.bind_eq_some_iff.mp hfound
        obtain rfl := Option.some.inj hfound
        cases hall with
        | cons hfirst hall => exact ⟨⟨b, hb, hfirst⟩, rest, hrest, hall⟩
      · rintro ⟨⟨b, hb, hfirst⟩, rest, hrest, hall⟩
        refine ⟨b :: rest, ?_, .cons hfirst hall⟩
        rw [List.mapM_cons, hb, hrest]
        rfl

/-- Names select the nodes they mean just when each is found as it is meant. Two such names of one file, none of
them a named node, then select the same node. -/
theorem findNodesByName_iff (hdag : dag.Searchable tuple) (cwd : CString) (names : List CString) :
    (SelectsByName cwd dag tuple names ↔ ∀ name ∈ names, FoundAsMeant cwd dag tuple name) ∧
      ∀ name name' pathFmt pathFmt', FoundAsMeant cwd dag tuple name → FoundAsMeant cwd dag tuple name' →
        (∀ named ∈ tuple.namedNodes, named.name ≠ name ∧ named.name ≠ name') → pathNormalize name .unix = some pathFmt →
          pathNormalize name' .unix = some pathFmt' → relativeTo cwd pathFmt = relativeTo cwd pathFmt' →
            findNodeByName cwd dag tuple name = findNodeByName cwd dag tuple name' := by
  constructor
  · have hfound : SelectsByName cwd dag tuple names ↔
        ∃ found, names.mapM (findNodeByName cwd dag tuple) = some found ∧
          List.Forall₂ (NamesNode cwd dag tuple) names found := by
      refine exists_congr fun found => and_congr_right fun hmap => ⟨And.right, fun hall => ⟨?_, hall⟩⟩
      rw [findNodesByName, hmap]
      rfl
    rw [hfound, forall₂_mapM]
    exact forall₂_congr fun name _ => hdag.findNodeByName_iff cwd name
  · intro name name' pathFmt pathFmt' hmeant hmeant' hnamed hpath hpath' hsame
    obtain ⟨found, hfound, hnode⟩ := (hdag.findNodeByName_iff cwd name).mpr hmeant
    obtain ⟨found', hfound', hnode'⟩ := (hdag.findNodeByName_iff cwd name').mpr hmeant'
    have hlowest : ∀ {name : CString} {pathFmt : CString} {found : Option Nat},
      (∀ named ∈ tuple.namedNodes, named.name ≠ name) →
        pathNormalize name .unix = some pathFmt → NamesNode cwd dag tuple name found →
          LowestWith dag tuple (relativeTo cwd pathFmt) found := by
      intro name pathFmt found hname hpath hnode
      rcases hnode with ⟨named, hfind, -⟩ | ⟨-, pathFmt', hpath', hlowest⟩
      · have hmem := List.mem_of_find?_eq_some hfind
        have heq := of_decide_eq_true
          (List.find?_some (p := fun named : NamedNodeData => decide (named.name = name)) hfind)
        exact absurd heq (hname named hmem)
      · obtain rfl : pathFmt = pathFmt' := Option.some.inj (hpath.symm.trans hpath')
        exact hlowest
    have hfirst := hlowest (fun named hmem => (hnamed named hmem).1) hpath hnode
    have hsecond := hlowest (fun named hmem => (hnamed named hmem).2) hpath' hnode'
    have heq : found = found' := by
      refine Option.ext fun index => ?_
      rw [hfirst index, hsame, hsecond index]
    rw [hfound, hfound', heq]

/-! ### A path that is typed in another way -/

theorem two_lt_int : 2 < 2 ^ 31 := by decide

/-- Two nodes that depend on each other, the first with a source file. -/
def sourceDag : DagData where
  nodeGuids := [⟨1, 0⟩, ⟨2, 0⟩]
  nodeData := [{ NodeData.empty with dependencies := [1], inputFiles := [⟨.lit "foo.c", djb2HashPath (.lit "foo.c")⟩] },
    { NodeData.empty with dependencies := [0] }]
  nodeGuids_length := rfl
  nodeCount_int := two_lt_int

def toolTuple : BuildTupleData := ⟨0, 0, 0, [], [], [⟨.lit "tool", 0⟩]⟩

theorem sourceDag_searchable : sourceDag.Searchable toolTuple where
  dependencies := by decide
  namedNodes := by decide
  hashes := by decide

theorem findNodesByName_iff_source :
    (SelectsByName (.lit "/home") sourceDag toolTuple [.lit "tool", .lit "/home/./foo.c", .lit "bar.c"] ↔
        ∀ name ∈ [CString.lit "tool", .lit "/home/./foo.c", .lit "bar.c"], FoundAsMeant (.lit "/home") sourceDag toolTuple name) ∧
      ∀ name name' pathFmt pathFmt', FoundAsMeant (.lit "/home") sourceDag toolTuple name → FoundAsMeant
      (.lit "/home") sourceDag toolTuple name' →
        (∀ named ∈ toolTuple.namedNodes, named.name ≠ name ∧ named.name ≠ name') →
        pathNormalize name .unix = some pathFmt →
          pathNormalize name' .unix = some pathFmt' → relativeTo (.lit "/home") pathFmt = relativeTo
          (.lit "/home") pathFmt' →
            findNodeByName (.lit "/home") sourceDag toolTuple name = findNodeByName
            (.lit "/home") sourceDag toolTuple name' :=
  findNodesByName_iff sourceDag_searchable (.lit "/home") [.lit "tool", .lit "/home/./foo.c", .lit "bar.c"]

/-- The file of the first node is not found as `./foo.c`. -/
theorem selectsByName_dot : ¬SelectsByName (.lit "/home") sourceDag toolTuple [.lit "./foo.c"] := by
  rintro ⟨found, hfound, -, hall⟩
  have hnone : [CString.lit "./foo.c"].mapM (findNodeByName (.lit "/home") sourceDag toolTuple) = some [none] := by
    decide +kernel
  obtain rfl : found = [none] := Option.some.inj (hfound.symm.trans hnone)
  have hpath : pathNormalize (.lit "./foo.c") .unix = some (.lit "foo.c") := by decide +kernel
  have hrelative : relativeTo (.lit "/home") (.lit "foo.c") = .lit "foo.c" := by decide +kernel
  have hlowest : IsLowest sourceDag toolTuple (.lit "foo.c") 0 := by
    refine ⟨⟨⟨.lit "tool", 0⟩, List.mem_singleton_self _, .refl⟩, ?_,
      fun below hlt => absurd hlt (Nat.not_lt_zero below)⟩
    exact ⟨⟨.lit "foo.c", djb2HashPath (.lit "foo.c")⟩, List.mem_singleton_self _, rfl⟩
  cases hall with
  | cons hnode _ =>
      rcases hnode with ⟨named, hfind, -⟩ | ⟨-, pathFmt, hpathFmt, hmeant⟩
      · exact absurd hfind (by rw [show toolTuple.namedNodes.find? (·.name = CString.lit "./foo.c") = none by decide]; exact nofun)
      · obtain rfl := Option.some.inj (hpath.symm.trans hpathFmt)
        rw [hrelative] at hmeant
        exact absurd ((hmeant 0).mpr hlowest) nofun

end Tundra
