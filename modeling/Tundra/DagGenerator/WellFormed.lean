import Tundra.DagGenerator.Remap

/-!
# Well-formed documents

Which parts of a document `CompileDag` checks, and which it uses as they are. A document that passes the checks
is never turned down, and one that is sane where there are no checks makes nothing worse happen.
-/

namespace Tundra

open Checked (Raises)

/-- The array under a key, empty if there is none. -/
def arrayOf (obj : JsonObject) (key : String) : List JsonValue := (findArrayValue obj key).getD []

/-- The members of `Setup`. -/
def setupOf (root : JsonObject) : JsonObject := (findObjectValue root "Setup").getD []

/-- An index into an array of this length. -/
def InRange (n : Nat) (index : Int32) : Prop := 0 ≤ index.toInt ∧ index.toInt < n

instance (n : Nat) (index : Int32) : Decidable (InRange n index) := inferInstanceAs (Decidable (_ ∧ _))

/-- The path of a file in the way the DAG has it. -/
def cleanedPath (value : JsonValue) :
    Option CString := value.asString.bind fun path => (pathInit path .unix).bind pathFormat

/-! ### What is checked -/

/-- An element of `Deps`. -/
def CheckedDep (nodeCount : Nat) (dep : JsonValue) :
    Prop := ∃ num, dep.asNumber = some num ∧ InRange nodeCount (doubleToInt32 num)

instance (nodeCount : Nat) (dep : JsonValue) : Decidable (CheckedDep nodeCount dep) := Checked.decidableExistsSome _

@[mk_iff] structure CheckedNode (nodeCount : Nat) (node : JsonObject) : Prop where
  named : findStringValue node "Annotation" ≠ none ∨ findArrayValue node "Inputs" ≠ none ∨
    ∃ action, findStringValue node "Action" = some action ∧ action.bytes ≠ []
  deps : ∀ dep ∈ arrayOf node "Deps", CheckedDep nodeCount dep
  env : ∀ entry ∈ arrayOf node "Env", findIn entry "Key" ≠ none ∧ findIn entry "Value" ≠ none

instance (nodeCount : Nat) (node : JsonObject) :
    Decidable (CheckedNode nodeCount node) := decidable_of_iff' _ (checkedNode_iff nodeCount node)

@[mk_iff] structure CheckedScanner (data : JsonObject) : Prop where
  kind : findStringValue data "Kind" = some (.lit "cpp") ∨ findStringValue data "Kind" = some (.lit "generic")
  includePaths : findArrayValue data "IncludePaths" ≠ none
  keywords : findStringValue data "Kind" = some (.lit "generic") →
    ∀ value ∈ arrayOf data "Keywords" ++ arrayOf data "KeywordsNoFollow", value.asString ≠ none

instance (data : JsonObject) : Decidable (CheckedScanner data) := decidable_of_iff' _ (checkedScanner_iff data)

@[mk_iff] structure CheckedTuple (tuple : JsonObject) : Prop where
  configIndex : findIntValue tuple "ConfigIndex" (-1) ≠ -1
  variantIndex : findIntValue tuple "VariantIndex" (-1) ≠ -1
  subVariantIndex : findIntValue tuple "SubVariantIndex" (-1) ≠ -1
  defaultNodes : findArrayValue tuple "DefaultNodes" ≠ none
  alwaysNodes : findArrayValue tuple "AlwaysNodes" ≠ none
  numbers : ∀ value ∈ arrayOf tuple "DefaultNodes" ++ arrayOf tuple "AlwaysNodes", value.asNumber ≠ none
  namedNodes : ∀ member ∈ (findObjectValue tuple "NamedNodes").getD [], member.2.asNumber ≠ none

instance (tuple : JsonObject) : Decidable (CheckedTuple tuple) := decidable_of_iff' _ (checkedTuple_iff tuple)

@[mk_iff] structure CheckedSetup (setup : JsonObject) : Prop where
  configs : arrayOf setup "Configs" ≠ []
  variants : arrayOf setup "Variants" ≠ []
  subVariants : arrayOf setup "SubVariants" ≠ []
  buildTuples : arrayOf setup "BuildTuples" ≠ []
  tuples : ∀ value ∈ arrayOf setup "BuildTuples", ∃ tuple, value.asObject = some tuple ∧ CheckedTuple tuple
  defaultTuple : ∃ tuple, findObjectValue setup "DefaultBuildTuple" = some tuple ∧
    findIntValue tuple "ConfigIndex" (-2) ≠ -2 ∧
    findIntValue tuple "VariantIndex" (-2) ≠ -2 ∧ findIntValue tuple "SubVariantIndex" (-2) ≠ -2

instance (setup : JsonObject) : Decidable (CheckedSetup setup) := decidable_of_iff' _ (checkedSetup_iff setup)

/-- A document that passes every check of `CompileDag`. -/
@[mk_iff] structure CheckedDocument (root : JsonObject) : Prop where
  nodes : arrayOf root "Nodes" ≠ []
  passes : arrayOf root "Passes" ≠ []
  scanners : ∀ value ∈ arrayOf root "Scanners", ∃ data, value.asObject = some data ∧ CheckedScanner data
  node : ∀ value ∈ arrayOf root "Nodes", ∃ node, value.asObject = some node ∧
    CheckedNode (arrayOf root "Nodes").length node
  guids : (((arrayOf root "Nodes").filterMap JsonValue.asObject).map nodeDigest).Nodup
  setup : ∃ setup, findObjectValue root "Setup" = some setup ∧ CheckedSetup setup
  fileSignatures : ∀ value ∈ arrayOf root "FileSignatures", findIn value "File" ≠ none
  globSignatures : ∀ value ∈ arrayOf root "GlobSignatures", ∀ sig, value.asObject = some sig →
    findStringValue sig "Path" ≠ none
  extensions : ∀ value ∈ arrayOf root "ContentDigestExtensions", ∃ ext, value.asString = some ext ∧
    ext.bytes.head? = some 46

instance (root : JsonObject) : Decidable (CheckedDocument root) := decidable_of_iff' _ (checkedDocument_iff root)

/-! ### What is not checked -/

@[mk_iff] structure SaneNode (passCount scannerCount : Nat) (node : JsonObject) : Prop where
  action : findStringValue node "Action" ≠ none
  annotation : findStringValue node "Annotation" ≠ none
  pass : InRange passCount (findIntValue node "PassIndex" 0)
  scanner : findIntValue node "ScannerIndex" (-1) = -1 ∨ InRange scannerCount (findIntValue node "ScannerIndex" (-1))
  inputs : ∀ value ∈ arrayOf node "Inputs", cleanedPath value ≠ none
  outputs : ∀ value ∈ arrayOf node "Outputs", cleanedPath value ≠ none
  auxOutputs : ∀ value ∈ arrayOf node "AuxOutputs", cleanedPath value ≠ none

instance (passCount scannerCount : Nat) (node : JsonObject) :
    Decidable (SaneNode passCount scannerCount node) := decidable_of_iff' _ (saneNode_iff passCount scannerCount node)

/-- An index of a node that is not checked: if it is a number, it is one of a node. -/
def SaneIndex (nodeCount : Nat) (value : JsonValue) :
    Prop := ∀ num, value.asNumber = some num → InRange nodeCount (doubleToInt32 num)

instance (nodeCount : Nat) (value : JsonValue) : Decidable (SaneIndex nodeCount value) := Checked.decidableForallSome _

@[mk_iff] structure SaneTuple (nodeCount : Nat) (tuple : JsonObject) : Prop where
  defaultNodes : ∀ value ∈ arrayOf tuple "DefaultNodes", SaneIndex nodeCount value
  alwaysNodes : ∀ value ∈ arrayOf tuple "AlwaysNodes", SaneIndex nodeCount value
  namedNodes : ∀ member ∈ (findObjectValue tuple "NamedNodes").getD [], SaneIndex nodeCount member.2

instance (nodeCount : Nat) (tuple : JsonObject) :
    Decidable (SaneTuple nodeCount tuple) := decidable_of_iff' _ (saneTuple_iff nodeCount tuple)

/-- A document that is right where `CompileDag` does not check it. -/
@[mk_iff] structure SaneDocument (root : JsonObject) : Prop where
  nodes : ∀ value ∈ arrayOf root "Nodes", ∀ node, value.asObject = some node →
    SaneNode (arrayOf root "Passes").length (arrayOf root "Scanners").length node
  passes : ∀ value ∈ arrayOf root "Passes", value.asString ≠ none
  includePaths : ∀ value ∈ arrayOf root "Scanners", ∀ data, value.asObject = some data →
    ∀ path ∈ arrayOf data "IncludePaths", path.asString ≠ none
  names : ∀ key ∈ ["Configs", "Variants", "SubVariants"], ∀ value ∈ arrayOf (setupOf root) key, value.asString ≠ none
  tuples : ∀ value ∈ arrayOf (setupOf root) "BuildTuples", ∀ tuple, value.asObject = some tuple →
    SaneTuple (arrayOf root "Nodes").length tuple
  globSignatures : ∀ value ∈ arrayOf root "GlobSignatures", value.asObject ≠ none

instance (root : JsonObject) : Decidable (SaneDocument root) := decidable_of_iff' _ (saneDocument_iff root)

/-! ### Errors -/

/-- What is to blame for an error: `CompileDag` returns false only if a check fails, and worse happens only if
something is not sane. -/
def Fault (checked sane : Prop) (e : CompileError) : Prop := if e = .invalid then ¬checked else ¬sane

variable {α : Type} {C S : Prop} {x : Except CompileError α}

theorem Fault.exists_ok (h : Raises (Fault C S) x) (hC : C) (hS : S) : ∃ a, x = .ok a := by
  cases x with
  | ok a => exact ⟨a, rfl⟩
  | error e =>
      have hfault := h e rfl
      rw [Fault] at hfault
      split_ifs at hfault
      · exact absurd hC hfault
      · exact absurd hS hfault

theorem Fault.eq_invalid (h : Raises (Fault C S) x) (hS : S) {e : CompileError} (he : x = .error e) : e = .invalid := by
  by_contra hne
  have hfault := h e he
  rw [Fault, if_neg hne] at hfault
  exact hfault hS

theorem Fault.ne_invalid (h : Raises (Fault C S) x) (hC : C) : x ≠ .error .invalid := by
  intro he
  have hfault := h .invalid he
  rw [Fault, if_pos rfl] at hfault
  exact hfault hC

theorem raises_invalid (h : ¬C) : Raises (Fault C S) (.error .invalid : Except CompileError α) := by
  refine .error ?_
  rwa [Fault, if_pos rfl]

theorem raises_require {x : Option α} (h : C → x ≠ none) : Raises (Fault C S) (require x) := by
  cases x with
  | none => exact raises_invalid fun hc => h hc rfl
  | some a => exact .ok a

/-- A value that is checked, and what the document promises of it. -/
theorem raises_require_bind {β : Type} {x : Option α} {P : α → Prop} {f : α → Except CompileError β}
    (hC : C → ∃ a, x = some a ∧ P a) (hf : ∀ a, x = some a → (C → P a) → Raises (Fault C S) (f a)) :
    Raises (Fault C S) (require x >>= f) := by
  refine (raises_require fun hc hnone => ?_).bind fun a ha => hf a (require_eq_ok.mp ha) fun hc => ?_
  · obtain ⟨a, ha, -⟩ := hC hc
    exact Option.some_ne_none a (ha.symm.trans hnone)
  · obtain ⟨b, hb, hP⟩ := hC hc
    rwa [Option.some.inj ((require_eq_ok.mp ha).symm.trans hb)]

theorem raises_notNull {x : Option CString} (h : S → x ≠ none) : Raises (Fault C S) (notNull x) := by
  cases x with
  | none =>
      refine .error ?_
      rw [Fault, if_neg (by decide)]
      exact fun hs => h hs rfl
  | some s => exact .ok s

theorem raises_getString {value : JsonValue} (h : S → value.asString ≠ none) :
    Raises (Fault C S) (getString value) := raises_notNull h

theorem raises_readOptional {read : List JsonValue → Except CompileError α} {values : Option (List JsonValue)}
    (h : ∀ vs, values = some vs → Raises (Fault C S) (read vs)) : Raises (Fault C S) (readOptional read values) := by
  cases values with
  | none => exact .ok none
  | some vs => exact (h vs rfl).bind fun a _ => .ok (some a)

/-! ### The scanners and the guids -/

theorem raises_readKeywords {shouldFollow : Bool} {array : Option (List JsonValue)}
    (hC : C → ∀ value ∈ array.getD [], value.asString ≠ none) :
    Raises (Fault C S) (readKeywords shouldFollow array) := by
  refine .mapM fun value hvalue => (raises_require fun hc => hC hc value hvalue).bind fun string _ => .ok _

theorem raises_readScanner {value : JsonValue} (hC : C → ∃ data, value.asObject = some data ∧ CheckedScanner data)
    (hS : S → ∀ data, value.asObject = some data → ∀ path ∈ arrayOf data "IncludePaths", path.asString ≠ none) :
    Raises (Fault C S) (readScanner value) := by
  refine raises_require_bind hC fun data hdata hchecked => ?_
  have hkind : C → findStringValue data "Kind" ≠ none := fun hc hnone => by simpa [hnone] using (hchecked hc).kind
  refine (raises_require hkind).bind fun kind hkind => ?_
  replace hkind := require_eq_ok.mp hkind
  refine (raises_require fun hc => (hchecked hc).includePaths).bind fun incpaths hincpaths => ?_
  replace hincpaths := require_eq_ok.mp hincpaths
  have hpaths : Raises (Fault C S) (incpaths.mapM getString) := .mapM fun path hpath => raises_getString fun hs =>
    hS hs data hdata path (by rwa [arrayOf, hincpaths])
  refine .ite (fun _ => hpaths.bind fun _ _ => .ok _) fun hcpp => .ite (fun hgeneric => ?_) fun hgeneric => ?_
  · have hkeywords : C → ∀ value ∈ arrayOf data "Keywords" ++ arrayOf data "KeywordsNoFollow", value.asString ≠
      none := fun hc =>
      (hchecked hc).keywords (hkind.trans (congrArg some hgeneric))
    refine hpaths.bind fun _ _ => (raises_readKeywords fun hc value hvalue => ?_).bind fun _ _ =>
      (raises_readKeywords fun hc value hvalue => ?_).bind fun _ _ => .ok _
    · exact hkeywords hc value (List.mem_append_left _ hvalue)
    · exact hkeywords hc value (List.mem_append_right _ hvalue)
  · refine raises_invalid fun hc => ?_
    rcases (hchecked hc).kind with h | h
    · exact hcpp (Option.some.inj (hkind.symm.trans h))
    · exact hgeneric (Option.some.inj (hkind.symm.trans h))

theorem raises_computeNodeGuids {nodes : List JsonValue}
    (hC : C → ∀ value ∈ nodes, ∃ node, value.asObject = some node ∧ CheckedNode nodes.length node)
    (hguids : C → ((nodes.filterMap JsonValue.asObject).map nodeDigest).Nodup) :
    Raises (Fault C S) (computeNodeGuids nodes) := by
  refine Raises.bind (.mapM fun entry hentry => ?_) fun guids hread => .ite (fun hany => ?_) fun _ => .ok _
  · have hmem : entry.1 ∈ nodes := List.fst_mem_of_mem_zipIdx hentry
    refine raises_require_bind (fun hc => hC hc entry.1 hmem)
      fun nobj _ hchecked => .ite (fun hempty => raises_invalid fun hc => ?_) fun _ =>
      .ok _
    obtain ⟨haction, hinputs, hlabel⟩ := hempty
    rcases (hchecked hc).named with h | h | ⟨action, h, hne⟩
    · exact h hlabel
    · exact h hinputs
    · rw [h] at haction
      exact hne haction
  · refine raises_invalid fun hc => ?_
    have hnodup : ((sortGuids guids).map TempNodeGuid.digest).Nodup := by
      have hperm : (sortGuids guids).Perm guids := List.perm_insertionSort _ guids
      rw [(hperm.map _).nodup_iff, readNodeGuid_digests hread]
      exact hguids hc
    exact any_digest_eq_false hnodup hany

/-! ### The nodes -/

theorem raises_readDep {nodeCount : Nat} {dep : JsonValue} (hC : C → CheckedDep nodeCount dep) :
    Raises (Fault C S) (readDep nodeCount dep) := by
  refine raises_require_bind hC fun num _ hrange => .ite (fun hout => raises_invalid fun hc => ?_) fun _ => .ok _
  obtain ⟨hnonneg, hlt⟩ := hrange hc
  omega

theorem raises_readDeps {nodeCount : Nat} {value : JsonValue}
    (hC : C → ∃ node, value.asObject = some node ∧ CheckedNode nodeCount node) :
    Raises (Fault C S) (readDeps nodeCount value) := by
  refine raises_require_bind hC fun node _ hchecked => raises_readOptional fun deps hdeps => .mapM
    fun dep hdep => raises_readDep fun hc => ?_
  exact (hchecked hc).deps dep (by rwa [arrayOf, hdeps])

theorem raises_readFiles {values : List JsonValue} (hS : S → ∀ value ∈ values, cleanedPath value ≠ none) :
    Raises (Fault C S) (readFiles values) := by
  induction values with
  | nil => exact .ok _
  | cons value values ih =>
      rw [readFiles]
      split
      case h_1 => exact .ok _
      case h_2 path hpath =>
        split
        case h_1 hnone =>
          refine .error ?_
          rw [Fault, if_neg (by decide)]
          intro hs
          refine hS hs value List.mem_cons_self ?_
          rw [cleanedPath, hpath, Option.bind_some, hnone]
        case h_2 => exact (ih fun hs value hvalue => hS hs value (List.mem_cons_of_mem _ hvalue)).bind fun _ _ => .ok _

theorem raises_readEnvVar {entry : JsonValue} (hC : C → findIn entry "Key" ≠ none ∧ findIn entry "Value" ≠ none) :
    Raises (Fault C S) (readEnvVar entry) :=
  (raises_require fun hc => (hC hc).1).bind fun _ _ => (raises_require fun hc => (hC hc).2).bind fun _ _ => .ok _

theorem raises_readScannerIndex {scannerCount : Nat} {index : Int32}
    (hS : S → index = -1 ∨ InRange scannerCount index) :
    Raises (Fault C S) (readScannerIndex scannerCount index) := by
  refine .ite (fun _ => .ok _) fun hone => .ite (fun _ => .ok _) fun hout => .error ?_
  rw [Fault, if_neg (by decide)]
  exact fun hs => (hS hs).elim hone hout

theorem raises_readNode {nodeCount passCount scannerCount : Nat} {guidTable : List TempNodeGuid} {value : JsonValue}
    {deps : Option (List Nat)} {links : List Nat}
    (hC : C → ∃ node, value.asObject = some node ∧ CheckedNode nodeCount node)
    (hS : S → ∀ node, value.asObject = some node → SaneNode passCount scannerCount node) :
    Raises (Fault C S) (readNode scannerCount guidTable value deps links) := by
  refine raises_require_bind hC fun node hnode hchecked => ?_
  have hsane : S → SaneNode passCount scannerCount node := fun hs => hS hs node hnode
  have hfiles : ∀ values : Option (List JsonValue), (S → ∀ value ∈ values.getD [], cleanedPath value ≠ none) →
      Raises (Fault C S) (readFileArray values) := fun values h => (raises_readFiles h).bind fun _ _ => .ok _
  refine (raises_notNull fun hs => SaneNode.annotation (hsane hs)).bind
    fun _ _ => (hfiles _ fun hs => (hsane hs).inputs).bind fun _ _ =>
    (hfiles _ fun hs => (hsane hs).outputs).bind fun _ _ => (hfiles _ fun hs => (hsane hs).auxOutputs).bind
      fun _ _ => ?_
  refine Raises.bind (.mapM fun entry hentry => raises_readEnvVar fun hc => (hchecked hc).env entry hentry)
    fun _ _ => ?_
  exact (raises_readScannerIndex fun hs => (hsane hs).scanner).bind fun _ _ => .ok _

theorem raises_readNodes {passCount scannerCount : Nat} {guidTable : List TempNodeGuid} {nodes : List JsonValue}
    (hguids : GuidTable nodes guidTable)
    (hC : C → ∀ value ∈ nodes, ∃ node, value.asObject = some node ∧ CheckedNode nodes.length node)
    (hS : S → ∀ value ∈ nodes, ∀ node, value.asObject = some node → SaneNode passCount scannerCount node) :
    Raises (Fault C S) (readNodes scannerCount guidTable nodes) := by
  refine Raises.bind (.mapM fun value hvalue => raises_readDeps fun hc => hC hc value hvalue) fun deps _ => .mapM
    fun guid hguid => ?_
  obtain ⟨value, nobj, hvalue, -⟩ := hguids.guids guid hguid
  rw [List.getD_eq_getElem?_getD, hvalue, Option.getD_some]
  have hmem : value ∈ nodes := List.mem_of_getElem? hvalue
  exact raises_readNode (fun hc => hC hc value hmem) fun hs => hS hs value hmem

/-! ### The rest -/

theorem raises_readNodeIndex {guidTable : List TempNodeGuid} {value : JsonValue} (hC : C → value.asNumber ≠ none)
    (hS : S → SaneIndex guidTable.length value) : Raises (Fault C S) (readNodeIndex guidTable value) := by
  refine (raises_require hC).bind fun num hnum => .ite (fun _ => .ok _) fun hout => .error ?_
  rw [Fault, if_neg (by decide)]
  exact fun hs => hout (hS hs num (require_eq_ok.mp hnum))

theorem raises_readNamedNodes {guidTable : List TempNodeGuid} {named : Option JsonObject}
    (hC : C → ∀ member ∈ named.getD [], member.2.asNumber ≠ none)
    (hS : S → ∀ member ∈ named.getD [], SaneIndex guidTable.length member.2) :
    Raises (Fault C S) (readNamedNodes guidTable named) := by
  cases named with
  | none => exact .ok _
  | some named =>
      refine Raises.bind (.mapM fun member hmember => ?_) fun _ _ => .ok _
      exact (raises_readNodeIndex (fun hc => hC hc member hmember) fun hs => hS hs member hmember).bind fun _ _ => .ok _

theorem raises_readTuple {guidTable : List TempNodeGuid} {value : JsonValue}
    (hC : C → ∃ tuple, value.asObject = some tuple ∧ CheckedTuple tuple)
    (hS : S → ∀ tuple, value.asObject = some tuple → SaneTuple guidTable.length tuple) :
    Raises (Fault C S) (readTuple guidTable value) := by
  refine raises_require_bind hC fun tuple htuple hchecked => ?_
  have hsane : S → SaneTuple guidTable.length tuple := fun hs => hS hs tuple htuple
  refine Raises.ite (fun hindex => raises_invalid fun hc => ?_) fun _ => ?_
  · rcases hindex with h | h | h
    · exact (hchecked hc).configIndex h
    · exact (hchecked hc).variantIndex h
    · exact (hchecked hc).subVariantIndex h
  refine (raises_require fun hc => (hchecked hc).defaultNodes).bind fun defaultNodes hdefault =>
    (raises_require fun hc => (hchecked hc).alwaysNodes).bind fun alwaysNodes halways => ?_
  replace hdefault : arrayOf tuple "DefaultNodes" = defaultNodes := by
    rw [arrayOf, require_eq_ok.mp hdefault, Option.getD_some]
  replace halways : arrayOf tuple "AlwaysNodes" = alwaysNodes := by
    rw [arrayOf, require_eq_ok.mp halways, Option.getD_some]
  have hnumbers : C → ∀ value ∈ defaultNodes ++ alwaysNodes, value.asNumber ≠ none := fun hc => by
    rw [← hdefault, ← halways]
    exact (hchecked hc).numbers
  refine Raises.bind (.mapM fun value hvalue => raises_readNodeIndex ?_ fun hs => ?_) fun _ _ =>
    Raises.bind (.mapM fun value hvalue => raises_readNodeIndex ?_ fun hs => ?_) fun _ _ =>
      Raises.bind (raises_readNamedNodes (fun hc => (hchecked hc).namedNodes) fun hs => (hsane hs).namedNodes)
        fun _ _ => .ok _
  · exact fun hc => hnumbers hc value (List.mem_append_left _ hvalue)
  · exact (hsane hs).defaultNodes value (hdefault ▸ hvalue)
  · exact fun hc => hnumbers hc value (List.mem_append_right _ hvalue)
  · exact (hsane hs).alwaysNodes value (halways ▸ hvalue)

theorem raises_names {array : Option (List JsonValue)} {f : List JsonValue → Except CompileError α}
    (hC : C → array.getD [] ≠ []) (hf : ∀ values, array = some values → Raises (Fault C S) (f values)) :
    Raises (Fault C S) (require (nonEmptyArray array) >>= f) := by
  match array with
  | none => exact raises_invalid fun hc => hC hc rfl
  | some [] => exact raises_invalid fun hc => hC hc rfl
  | some (value :: values) => exact hf _ rfl

theorem raises_readSetup {guidTable : List TempNodeGuid} {root : JsonObject}
    (hC : C → ∃ setup, findObjectValue root "Setup" = some setup ∧ CheckedSetup setup)
    (hnames : S → ∀ key ∈ ["Configs", "Variants", "SubVariants"], ∀ value ∈ arrayOf (setupOf root) key,
    value.asString ≠ none)
    (htuples : S → ∀ value ∈ arrayOf (setupOf root) "BuildTuples", ∀ tuple, value.asObject = some tuple →
    SaneTuple guidTable.length tuple) :
    Raises (Fault C S) (readSetup guidTable root) := by
  refine raises_require_bind hC fun setup hsetup hchecked => ?_
  rw [setupOf, hsetup, Option.getD_some] at hnames htuples
  have hstrings : ∀ key ∈ ["Configs", "Variants", "SubVariants"], ∀ values, findArrayValue setup key = some values →
      Raises (Fault C S) (values.mapM getString) :=
        fun key hkey values hvalues => .mapM fun value hvalue => raises_getString fun hs =>
    hnames hs key hkey value (by rwa [arrayOf, hvalues])
  refine raises_names (fun hc => (hchecked hc).configs)
    fun configs hconfigs => raises_names (fun hc => (hchecked hc).variants)
    fun variants hvariants => raises_names (fun hc => (hchecked hc).subVariants) fun subVariants hsubVariants =>
    raises_names (fun hc => (hchecked hc).buildTuples) fun tuples htuples' => ?_
  refine (hstrings "Configs" (by simp) configs hconfigs).bind
    fun _ _ => (hstrings "Variants" (by simp) variants hvariants).bind fun _ _ =>
    (hstrings "SubVariants" (by simp) subVariants hsubVariants).bind fun _ _ => ?_
  have hmem : ∀ value ∈ tuples, value ∈ arrayOf setup "BuildTuples" := fun value hvalue => by rwa [arrayOf, htuples']
  refine Raises.bind (.mapM fun value hvalue => ?_) fun _ _ => ?_
  · exact raises_readTuple (fun hc => (hchecked hc).tuples value (hmem value hvalue))
      fun hs => htuples hs value (hmem value hvalue)
  refine raises_require_bind (fun hc => (hchecked hc).defaultTuple)
    fun tuple _ hindices => .ite (fun hindex => raises_invalid fun hc => ?_)
    fun _ => .ok _
  obtain ⟨hconfig, hvariant, hsubVariant⟩ := hindices hc
  rcases hindex with h | h | h
  · exact hconfig h
  · exact hvariant h
  · exact hsubVariant h

theorem raises_readSignatures {root : JsonObject} (hC : C → CheckedDocument root) :
    Raises (Fault C S) (readOptional (List.mapM readFileSignature) (findArrayValue root "FileSignatures")) ∧
      Raises (Fault C S) (readOptional readGlobSignatures (findArrayValue root "GlobSignatures")) ∧
        Raises (Fault C S) (readOptional (List.mapM readExtension)
        (findArrayValue root "ContentDigestExtensions")) := by
  refine ⟨raises_readOptional fun values hvalues => .mapM fun value hvalue => ?_,
    raises_readOptional fun values hvalues => ?_,
    raises_readOptional fun values hvalues => .mapM fun value hvalue => ?_⟩
  · have hfile : C → findIn value "File" ≠ none := fun hc => (hC hc).fileSignatures value (by rwa [arrayOf, hvalues])
    refine (raises_require fun hc hnone => hfile hc ?_).bind fun sig hsig => raises_require fun hc hnone => hfile hc ?_
    · rw [findIn, hnone, Option.bind_none]
    · rw [findIn, require_eq_ok.mp hsig, Option.bind_some, hnone]
  · refine Raises.bind (.mapM fun sig hsig => raises_require fun hc => ?_) fun _ _ => .ok _
    obtain ⟨value, hvalue, hobj⟩ := List.mem_filterMap.mp hsig
    exact (hC hc).globSignatures value (by rwa [arrayOf, hvalues]) sig hobj
  · refine raises_require_bind (fun hc => (hC hc).extensions value (by rwa [arrayOf, hvalues]))
      fun ext _ hdot => .ite (fun _ => .ok _)
      fun hne => raises_invalid fun hc => hne (hdot hc)

/-- `CompileDag` returns false only for a document that does not pass its checks, and does something worse only
for one that is not sane. -/
theorem raises_readDag (root : JsonObject) :
    Raises (Fault (CheckedDocument root) (SaneDocument root)) (readDag root) := by
  refine raises_names CheckedDocument.nodes fun nodes hnodes => raises_names CheckedDocument.passes
    fun passes hpasses => ?_
  replace hnodes : arrayOf root "Nodes" = nodes := by rw [arrayOf, hnodes, Option.getD_some]
  replace hpasses : arrayOf root "Passes" = passes := by rw [arrayOf, hpasses, Option.getD_some]
  refine Raises.bind (.mapM fun value hvalue => ?_) fun scanners hscanners => ?_
  · exact raises_readScanner (fun hc => hc.scanners value hvalue) fun hs => hs.includePaths value hvalue
  have hchecked : CheckedDocument root → ∀ value ∈ nodes, ∃ node, value.asObject = some node ∧
    CheckedNode nodes.length node :=
    fun hc => hnodes ▸ hc.node
  refine Raises.bind (raises_computeNodeGuids hchecked fun hc => hnodes ▸ hc.guids) fun guidTable hguids => ?_
  replace hguids := computeNodeGuids_eq_ok hguids
  have hcount : scanners.length = (arrayOf root "Scanners").length := (Checked.mapM_eq_ok.mp hscanners).length_eq.symm
  have hsane : SaneDocument root → ∀ value ∈ nodes, ∀ node, value.asObject = some node →
      SaneNode (arrayOf root "Passes").length scanners.length node := fun hs => hcount ▸ hnodes ▸ hs.nodes
  refine (raises_readNodes hguids hchecked hsane).bind fun nodeFields _ => ?_
  refine Raises.bind (.mapM fun value hvalue => raises_getString fun hs => hs.passes value (hpasses ▸ hvalue))
    fun _ _ => ?_
  refine (raises_readSetup CheckedDocument.setup SaneDocument.names fun hs => ?_).bind fun _ _ => ?_
  · rw [hguids.length_eq, ← hnodes]
    exact hs.tuples
  obtain ⟨hfiles, hglobs, hexts⟩ := raises_readSignatures (fun hc : CheckedDocument root => hc)
  exact hfiles.bind fun _ _ => hglobs.bind fun _ _ => hexts.bind fun _ _ => .ok _

end Tundra
