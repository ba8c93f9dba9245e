import Tundra.Lib.Triple
import Tundra.Lua.EnvFrame
import Tundra.Front.Depgraph
import Mathlib.Data.List.Sort

/-!
# Generating units

`nodegen.lua`, `native.lua` and `make_node` of `depgraph.lua`: the nodes of a native unit are made in a clone of
the configuration's environment, which takes up the declaration first. The units it depends on, and those among
its sources, are generated on the way, each in a clone of its own.

A unit is known by its place in the build file. Recursion is bounded by fuel, of which units that depend on each
other would need an infinite amount. `pairs` goes through tables in the order in which they are listed here.
-/

namespace Tundra.Nodegen

/-! ### Declarations -/

/-- A `Config` attribute: a pattern, or a table of them. -/
inductive ConfigPattern where
  | pattern (text : List UInt8)
  | any (patterns : List ConfigPattern)

mutual

/-- `config_matches`, with the match of one pattern and a build id. -/
def ConfigPattern.accepts (matchesPattern : List UInt8 → List UInt8 → Bool) (buildId : List UInt8) :
    ConfigPattern → Bool
  | .pattern text => matchesPattern text buildId
  | .any patterns => acceptsAny matchesPattern buildId patterns

def ConfigPattern.acceptsAny (matchesPattern : List UInt8 → List UInt8 → Bool) (buildId : List UInt8) :
    List ConfigPattern → Bool
  | [] => false
  | first :: rest => first.accepts matchesPattern buildId || acceptsAny matchesPattern buildId rest

end

def configMatches (matchesPattern : List UInt8 → List UInt8 → Bool) (buildId : List UInt8)
    (config : Option ConfigPattern) : Bool :=
  config.all (·.accepts matchesPattern buildId)

inductive FilterTree (α : Type) where
  | leaf (a : α)
  | table (config : Option ConfigPattern) (items : List (FilterTree α))

mutual

/-- `flatten_list`, with the filter for a build id. -/
def flattenList {α : Type} (accepts : Option ConfigPattern → Bool) : FilterTree α → List α
  | .leaf a => [a]
  | .table config items => if accepts config then flattenItems accepts items else []

def flattenItems {α : Type} (accepts : Option ConfigPattern → Bool) : List (FilterTree α) → List α
  | [] => []
  | item :: items => flattenList accepts item ++ flattenItems accepts items

end

/-- A list of sources: files, units, nodes and tables of them. -/
inductive SourceTree where
  | file (name : List UInt8)
  | unit (index : Nat)
  | node (index : Nat)
  | table (config : Option ConfigPattern) (sourceDir : Option (List UInt8)) (items : List SourceTree)

mutual

def filterStructure (accepts : Option ConfigPattern → Bool) : SourceTree → SourceTree
  | .file name => .file name
  | .unit index => .unit index
  | .node index => .node index
  | .table config sourceDir items =>
      if accepts config then .table none sourceDir (filterItems accepts items) else .table none none []

def filterItems (accepts : Option ConfigPattern → Bool) : List SourceTree → List SourceTree
  | [] => []
  | item :: items => filterStructure accepts item :: filterItems accepts items

end

def SourceTree.items : SourceTree → List SourceTree
  | .table _ _ items => items
  | _ => []

/-- Files put at the end of a list of sources. -/
def SourceTree.addFiles (files : List (List UInt8)) : SourceTree → SourceTree
  | .table config sourceDir items => .table config sourceDir (items ++ files.map .file)
  | tree => tree

def SourceTree.isFile (name : List UInt8) : SourceTree → Bool
  | .file name' => name' = name
  | _ => false

def ConfigPattern.isPattern (name : List UInt8) : ConfigPattern → Bool
  | .pattern text => text = name
  | .any _ => false

/-- `is_file_in_sources` on the named fields of a table. -/
def isFileInFields (name : List UInt8) (config : Option ConfigPattern) (sourceDir : Option (List UInt8)) : Bool :=
  match config with
  | some (.any patterns) => patterns.any (·.isPattern name)
  | some (.pattern text) => text = name || sourceDir = some name
  | none => sourceDir = some name

/-- `is_file_in_sources`. The first table that is met decides. -/
def isFileInItems (name : List UInt8) (config : Option ConfigPattern) (sourceDir : Option (List UInt8)) :
    List SourceTree → Bool
  | [] => isFileInFields name config sourceDir
  | .table _ _ items :: _ => items.any (·.isFile name)
  | item :: items => item.isFile name || isFileInItems name config sourceDir items

def isFileInSources (name : List UInt8) : SourceTree → Bool
  | .table config sourceDir items => isFileInItems name config sourceDir items
  | _ => false

inductive Keyword where
  | object
  | program
  | staticLibrary
  | sharedLibrary
  | externalLibrary
  | objGroup
deriving DecidableEq

/-- `Keyword:upper()`. -/
def Keyword.upper : Keyword → List UInt8
  | object => lit "OBJECT"
  | program => lit "PROGRAM"
  | staticLibrary => lit "STATICLIBRARY"
  | sharedLibrary => lit "SHAREDLIBRARY"
  | externalLibrary => lit "EXTERNALLIBRARY"
  | objGroup => lit "OBJGROUP"

/-- The variable that lists the auxiliary outputs of units of this kind. -/
def Keyword.auxFiles (keyword : Keyword) : List UInt8 := lit "AUX_FILES_" ++ keyword.upper

def Keyword.suffix : Keyword → List UInt8
  | object => lit "$(OBJECTSUFFIX)"
  | program => lit "$(PROGSUFFIX)"
  | staticLibrary => lit "$(LIBSUFFIX)"
  | sharedLibrary => lit "$(SHLIBSUFFIX)"
  | externalLibrary => []
  | objGroup => []

def Keyword.namePrefix : Keyword → List UInt8
  | program => lit "$(PROGPREFIX)"
  | staticLibrary => lit "$(LIBPREFIX)"
  | sharedLibrary => lit "$(SHLIBPREFIX)"
  | _ => []

def Keyword.action : Keyword → Option (List UInt8)
  | object => some (lit "$(OBJCOM)")
  | program => some (lit "$(PROGCOM)")
  | staticLibrary => some (lit "$(LIBCOM)")
  | sharedLibrary => some (lit "$(SHLIBCOM)")
  | externalLibrary => none
  | objGroup => none

def Keyword.label : Keyword → List UInt8
  | object => lit "Object $(<)"
  | program => lit "Program $(@)"
  | staticLibrary => lit "StaticLibrary $(@)"
  | sharedLibrary => lit "SharedLibrary $(@)"
  | externalLibrary => []
  | objGroup => lit "ObjGroup $(<)"

/-- The part of a declaration that goes into an environment. A `Propagate` block is one, too. -/
structure Block where
  libs : Option (FilterTree (List UInt8)) := none
  defines : Option (FilterTree (List UInt8)) := none
  includes : Option (FilterTree (List UInt8)) := none
  frameworks : Option (FilterTree (List UInt8)) := none
  libPaths : Option (FilterTree (List UInt8)) := none
  env : List (List UInt8 × FilterTree (List UInt8)) := []
  replaceEnv : List (List UInt8 × FilterTree (List UInt8)) := []

/-- An item of `Depends`: the name of a unit or the unit itself. -/
inductive DepRef where
  | name (text : List UInt8)
  | unit (index : Nat)

structure PrecompiledHeader where
  header : Option (List UInt8)
  source : Option (List UInt8)
  pass : Option (List UInt8)

/-- `Decl`. -/
structure UnitDecl where
  keyword : Keyword
  name : List UInt8
  block : Block := {}
  propagate : Option Block := none
  depends : Option (FilterTree DepRef) := none
  config : Option ConfigPattern := none
  subConfig : Option (List UInt8) := none
  pass : Option (List UInt8) := none
  sources : Option SourceTree := none
  untrackedSources : Option SourceTree := none
  sourceDir : Option (List UInt8) := none
  target : Option (List UInt8) := none
  preAction : Option (List UInt8) := none
  precompiledHeader : Option PrecompiledHeader := none

/-! ### The state of the generator -/

/-- A node of the DAG, less the fields that only concern its execution. -/
structure DagNode where
  pass : Option (List UInt8)
  deps : List Nat
  inputs : List (List UInt8)
  outputs : List (List UInt8)
  auxOutputs : List (List UInt8)
  action : List UInt8
  preaction : Option (List UInt8)
  annotation : List UInt8

/-- The argument of `make_node`. -/
structure NodeData where
  label : List UInt8
  pass : Option (List UInt8) := none
  action : Option (List UInt8) := none
  preAction : Option (List UInt8) := none
  inputFiles : List (List UInt8) := []
  inputFilesUntracked : List (List UInt8) := []
  outputFiles : Option (List (List UInt8)) := none
  auxOutputFiles : List (List UInt8) := []
  implicitInputs : List (List UInt8) := []
  dependencies : List Nat := []

/-- The functions of `path`. -/
structure PathFunctions where
  normalize : List UInt8 → List UInt8
  dropSuffix : List UInt8 → List UInt8
  getExtension : List UInt8 → List UInt8
  join : List UInt8 → List UInt8 → List UInt8
  split : List UInt8 → List UInt8 × List UInt8
  isAbsolute : List UInt8 → Bool

/-- A function that was registered for a suffix by `register_implicit_make_fn`. Those of the tools interpolate
the paths of a scanner and then make a node, both of which they find with the variables of the environment. They
fail if a variable is missing. -/
structure ImplicitMake where
  scannerPaths : (List UInt8 → Option (List (List UInt8))) → List UInt8 → Option (List (List UInt8))
  data : (List UInt8 → Option (List (List UInt8))) → Option (List UInt8) → List UInt8 → Option NodeData

/-- `current`, and what the generator finds in its surroundings. -/
structure Generator where
  units : List UnitDecl
  unitNames : List UInt8 → Option Nat
  passes : List UInt8 → Bool
  baseEnvs : Option (List UInt8 → Option Nat)
  defaultSubconfig : Option (List UInt8)
  defaultEnv : Nat
  veryVerbose : Bool
  matchesPattern : List UInt8 → List UInt8 → Bool
  path : PathFunctions
  implicitMake : Nat → List UInt8 → Option ImplicitMake
  cwd : List UInt8

inductive GenError where
  | interpolate (err : InterpolateError)
  | missingKey (key : List UInt8)
  | unknownUnit (name : List UInt8)
  | invalidPass (name : List UInt8)
  | missingPass
  | noSubconfig
  | assertion
deriving DecidableEq

structure GenState where
  envs : EnvState
  /-- `all_nodes`. -/
  nodes : List DagNode
  /-- `DagCache` of the units. -/
  dagCache : Nat → List UInt8 → Option Nat
  /-- The files `customize_env` has put at the end of a unit's sources. -/
  pchSources : Nat → List (List UInt8)
  anonCount : Nat
  externalCounter : Nat

abbrev Gen := Stateful GenError GenState

variable (gen : Generator)

/-- The filter for a build id. -/
def Generator.accepts (buildId : List UInt8) (config : Option ConfigPattern) :
    Bool := configMatches gen.matchesPattern buildId config

/-! ### Environments -/

/-- `table.concat(items, " ")`. -/
def concat (items : List (List UInt8)) : List UInt8 := (items.intersperse [32]).flatten

/-- `env:get`. -/
def getVar (e : Nat) (key : List UInt8) (default : Option (List UInt8)) : Gen (List UInt8) := do
  match (← get).envs.getList e key, default with
  | some items, _ => return concat items
  | none, some text => return text
  | none, none => Stateful.fail (.missingKey key)

/-- `env:get_list`, for lists that are only read. -/
def getListVar (e : Nat) (key : List UInt8) : Gen (List (List UInt8)) := do
  match (← get).envs.getList e key with
  | some items => return items
  | none => Stateful.fail (.missingKey key)

/-- `env:has_key`. -/
def hasKey (e : Nat) (key : List UInt8) : Gen Bool := do return (← get).envs.hasKey e key

/-- `env:set`, for a string. -/
def setVar (e : Nat) (key text : List UInt8) :
    Gen PUnit := modify fun s => { s with envs := s.envs.set e key (.string text) }

/-- `env:append`. -/
def appendVar (e : Nat) (key text : List UInt8) :
    Gen PUnit := modify fun s => { s with envs := s.envs.append e key text }

/-- `env:interpolate`. -/
def interpolate (fuel e : Nat) (str : List UInt8) (vars : Option (List UInt8 → Option (List (List UInt8)))) :
    Gen (List UInt8) := fun s =>
  match (s.envs.interpolate fuel e str vars).2 with
  | .ok text => .ok (text, { s with envs := (s.envs.interpolate fuel e str vars).1 })
  | .error err => .error (.interpolate err)
  | .outOfFuel => .outOfFuel

/-! ### Nodes -/

def pathForCmdline (path : PathFunctions) (rootPath file : List UInt8) : List UInt8 :=
  let fullPath := if path.isAbsolute file then file else rootPath ++ file
  if 32 ∈ fullPath then 34 :: (fullPath ++ [34]) else fullPath

/-- The per-call variables of a node: `$(<)` and `$(@)`. -/
def expandEnv (inputs : List (List UInt8)) (outputs : Option (List (List UInt8))) (key : List UInt8) :
    Option (List (List UInt8)) :=
  if key = [60] then some inputs else if key = [64] then outputs else none

def normalizePaths (fuel e : Nat) (paths : List (List UInt8)) : Gen (List (List UInt8)) :=
  paths.mapM fun file => do return gen.path.normalize (← interpolate fuel e file none)

/-- `table.sort` on strings. -/
def sortTexts (texts : List (List UInt8)) : List (List UInt8) := texts.insertionSort (· ≤ ·)

/-- The new node, which is put behind the others. -/
def addNode (node : DagNode) : Gen Nat := fun s => .ok (s.nodes.length, { s with nodes := s.nodes ++ [node] })

/-- The command line of a node. Without one it must not have outputs. -/
def makeAction (fuel e : Nat) (cmdline : List UInt8 → Option (List (List UInt8))) (outputs : List (List UInt8)) :
    Option (List UInt8) → Gen (List UInt8)
  | some action => interpolate fuel e action (some cmdline)
  | none => if outputs = [] then pure [] else Stateful.fail .assertion

/-- The command line that goes before it. -/
def makePreaction (fuel e : Nat) (cmdline : List UInt8 → Option (List (List UInt8))) :
    Option (List UInt8) → Gen (Option (List UInt8))
  | some preAction => do return some (← interpolate fuel e preAction (some cmdline))
  | none => pure none

def makeNode (fuel e : Nat) (data : NodeData) : Gen Nat := do
  let rootPath := gen.cwd ++ (← getVar e (lit "SEP") none)
  let regularInputs ← normalizePaths gen fuel e data.inputFiles
  let implicitInputs ← normalizePaths gen fuel e data.implicitInputs
  let outputs ← normalizePaths gen fuel e (data.outputFiles.getD [])
  let outputs := data.outputFiles.map fun _ => outputs
  let cmdlineInputs := regularInputs ++ data.inputFilesUntracked
  let quote := List.map (pathForCmdline gen.path rootPath)
  let cmdline := expandEnv (quote cmdlineInputs) (outputs.map quote)
  let auxOutputs ← data.auxOutputFiles.mapM
    fun file => do return gen.path.normalize (← interpolate fuel e file (some cmdline))
  let action ← makeAction fuel e cmdline (outputs.getD []) data.action
  let preaction ← makePreaction fuel e cmdline data.preAction
  let annotation ← interpolate fuel e data.label (some (expandEnv cmdlineInputs outputs))
  addNode
    { pass := data.pass
      deps := Front.uniq data.dependencies
      inputs := sortTexts (regularInputs ++ implicitInputs)
      outputs := sortTexts (outputs.getD [])
      auxOutputs := auxOutputs
      action := action
      preaction := preaction
      annotation := annotation }

def getNode (index : Nat) : Gen DagNode := do
  match (← get).nodes[index]? with
  | some node => return node
  | none => Stateful.fail .assertion

/-- The files `insert_output_files` puts into a table. -/
def outputFiles (suffixes : List (List UInt8)) (node : DagNode) : List (List UInt8) :=
  node.outputs.filter fun file => gen.path.getExtension file ∈ suffixes

def resolvePass : Option (List UInt8) → Gen (Option (List UInt8))
  | none => pure none
  | some name => if gen.passes name then pure (some name) else Stateful.fail (.invalidPass name)

/-! ### Sources -/

/-- What `resolve_sources` collects. -/
inductive SourceItem where
  | file (name : List UInt8)
  | node (index : Nat)

section Sources

variable (getDag : Nat → Nat → Gen Nat) (fuel e : Nat)

/-- A source file, less those with a suffix in `IGNORED_AUTOEXTS`. -/
def resolveFile (ignored : List (List UInt8)) (baseDir : Option (List UInt8)) (name : List UInt8) : List SourceItem :=
  if gen.path.getExtension name ∈ ignored then []
  else
    match baseDir with
    | some dir => if gen.path.isAbsolute name then [.file name] else [.file (gen.path.join dir name)]
    | none => [.file name]

mutual

/-- `resolve_sources`, for one item. -/
def resolveSource (ignored : List (List UInt8)) (baseDir : Option (List UInt8)) : SourceTree → Gen (List SourceItem)
  | .file name => pure (resolveFile gen ignored baseDir name)
  | .unit index => do return [.node (← getDag index e)]
  | .node index => pure [.node index]
  | .table _ sourceDir items => do
      let ignored := ((← get).envs.getList e (lit "IGNORED_AUTOEXTS")).getD []
      resolveSources ignored (sourceDir.or baseDir) items

def resolveSources (ignored : List (List UInt8)) (baseDir : Option (List UInt8)) :
    List SourceTree → Gen (List SourceItem)
  | [] => pure []
  | item :: items => do
      let resolved ← resolveSource ignored baseDir item
      return resolved ++ (← resolveSources ignored baseDir items)

end

/-- The files and nodes in a list of sources. -/
def splitSources (suffixes : List (List UInt8)) (items : List SourceItem) : Gen (List (List UInt8) × List Nat) :=
  items.foldlM (fun (files, deps) item =>
    match item with
    | .file name => pure (files ++ [name], deps)
    | .node index => do return (files ++ outputFiles gen suffixes (← getNode index), deps ++ [index])) ([], [])

def implicitMake (pass : Option (List UInt8)) (make : ImplicitMake) (file : List UInt8) : Gen Nat := do
  let lookup := (← get).envs.getList e
  match make.scannerPaths lookup file, make.data lookup pass file with
  | some paths, some data => do
      let _ ← paths.mapM fun path => interpolate fuel e path none
      makeNode gen fuel e data
  | _, _ => Stateful.fail .assertion

def transform (pass : Option (List UInt8)) (suffixes : List (List UInt8)) (result : List (List UInt8) × List Nat)
    (file : List UInt8) :
    Gen (List (List UInt8) × List Nat) :=
  match gen.implicitMake e file with
  | some make => do
      let index ← implicitMake gen fuel e pass make file
      return (result.1 ++ outputFiles gen suffixes (← getNode index), result.2 ++ [index])
  | none => pure (result.1 ++ [file], result.2)

/-- The loop of `analyze_sources`, which ends when no node is made. -/
def transformLoop (pass : Option (List UInt8)) (suffixes : List (List UInt8)) :
    Nat → List (List UInt8) → List Nat → Gen (List (List UInt8) × List Nat)
  | 0, _, _ => Stateful.exhaust
  | rounds + 1, files, deps => do
      let (result, deps') ← files.foldlM (transform gen fuel e pass suffixes) ([], deps)
      if deps'.length = deps.length then return (result, deps') else transformLoop pass suffixes rounds result deps'

/-- `x_source_list` for a build id, with `analyze_sources`. -/
def sourceListFor (decl : UnitDecl) (tree : SourceTree) (buildId : List UInt8) :
    Gen (List (List UInt8) × List Nat) := do
  let ignored := ((← get).envs.getList e (lit "IGNORED_AUTOEXTS")).getD []
  let items ← resolveSources gen getDag e ignored decl.sourceDir (filterStructure (gen.accepts buildId) tree).items
  let suffixes ← getListVar e (lit "NATIVE_SUFFIXES")
  let pass ← resolvePass gen decl.pass
  let (files, deps) ← splitSources gen suffixes items
  transformLoop gen fuel e pass suffixes fuel files deps

/-- `x_source_list`. -/
def sourceList (decl : UnitDecl) (tree : SourceTree) : Gen (List (List UInt8) × List Nat) :=
  getVar e (lit "BUILD_ID") none >>= sourceListFor gen getDag fuel e decl tree

def optionalSourceList (decl : UnitDecl) : Option SourceTree → Gen (Option (List (List UInt8)) × List Nat)
  | none => pure (none, [])
  | some tree => do
      let (files, deps) ← sourceList gen getDag fuel e decl tree
      return (some files, deps)

end Sources

/-- The result of `create_input_data`, as far as `create_dag` uses it. -/
structure InputData where
  pass : Option (List UInt8)
  sources : Option (List (List UInt8))
  untrackedSources : Option (List (List UInt8))

def createInputData (getDag : Nat → Nat → Gen Nat) (fuel e unit : Nat) (decl : UnitDecl) :
    Gen (InputData × List Nat) := do
  let added := (← get).pchSources unit
  let pass ← resolvePass gen decl.pass
  let (sources, deps) ← optionalSourceList gen getDag fuel e decl (decl.sources.map (·.addFiles added))
  let (untrackedSources, deps') ← optionalSourceList gen getDag fuel e decl decl.untrackedSources
  return (⟨pass, sources, untrackedSources⟩, deps ++ deps')

/-! ### The environment of a unit -/

/-- An assignment of `configure_env`. -/
inductive Binding where
  | push (key text : List UInt8)
  | replace (key text : List UInt8)

def Binding.key : Binding → List UInt8
  | push key _ => key
  | replace key _ => key

def pushBindings (accepts : Option ConfigPattern → Bool) (key : List UInt8)
    (data : Option (FilterTree (List UInt8))) : List Binding :=
  match data with
  | none => []
  | some data => (flattenList accepts data).map (.push key)

def replaceBindings (accepts : Option ConfigPattern → Bool) (key : List UInt8) (data : FilterTree (List UInt8)) :
    List Binding :=
  match flattenList accepts data with
  | [] => []
  | first :: rest => .replace key first :: rest.map (.push key)

def declToEnvMappings : List ((Block → Option (FilterTree (List UInt8))) × List UInt8) :=
  [(Block.libs, lit "LIBS"), (Block.defines, lit "CPPDEFS"), (Block.includes, lit "CPPPATH"),
    (Block.frameworks, lit "FRAMEWORKS"),
    (Block.libPaths, lit "LIBPATH")]

/-- The `Env` and `ReplaceEnv` parts of a block. -/
def Block.envBindings (accepts : Option ConfigPattern → Bool) (block : Block) : List Binding :=
  block.env.flatMap (fun (key, data) => pushBindings accepts key (some data)) ++
    block.replaceEnv.flatMap fun (key, data) => replaceBindings accepts key data

/-- The assignments of `configure_env`, in their order. -/
def bindings (accepts : Option ConfigPattern → Bool) (block : Block) (propagated : List Block) : List Binding :=
  declToEnvMappings.flatMap (fun (field, key) =>
      pushBindings accepts key (field block) ++ propagated.flatMap fun block => pushBindings accepts key (field block)) ++
    block.envBindings accepts ++ propagated.flatMap (Block.envBindings accepts)

def Binding.apply (e : Nat) (s : EnvState) : Binding → EnvState
  | push key text => s.append e key text
  | replace key text => s.replace e key (.string text)

/-- The `Propagate` blocks of units. -/
def Generator.propagated (deps : List Nat) :
    List Block := deps.filterMap fun unit => gen.units[unit]?.bind UnitDecl.propagate

def configureEnv (e : Nat) (decl : UnitDecl) (deps : List Nat) : Gen PUnit := do
  let buildId ← getVar e (lit "BUILD_ID") none
  modify fun s => { s with envs := (bindings (gen.accepts buildId) decl.block
    (gen.propagated deps)).foldl (Binding.apply e) s.envs }

def pdbLinkFile (fuel e : Nat) (decl : UnitDecl) : Gen (List UInt8) :=
  match decl.target with
  | some target => do return gen.path.dropSuffix (← interpolate fuel e target none) ++ lit ".pdb"
  | none => pure (lit "$(OBJECTDIR)/" ++ decl.name ++ lit ".pdb")

/-- The part of `customize_env` for PDB files. -/
def customizePdb (fuel e : Nat) (decl : UnitDecl) : Gen PUnit := do
  if (← getVar e (lit "GENERATE_PDB") (some (lit "0"))) ≠ lit "0" then
    setVar e (lit "_PDB_LINK_FILE") (← pdbLinkFile gen fuel e decl)
    setVar e (lit "_PDB_CC_FILE") (lit "$(OBJECTDIR)/" ++ decl.name ++ lit "_ccpdb.pdb")
    setVar e (lit "_USE_PDB_CC") (lit "$(_USE_PDB_CC_OPT)")
    setVar e (lit "_USE_PDB_LINK") (lit "$(_USE_PDB_LINK_OPT)")

/-- `path.remove_prefix`. -/
def removePrefix (start file : List UInt8) : List UInt8 := if start <+: file then file.drop start.length else file

/-- A file that `customize_env` puts at the end of a unit's sources, unless it is there. -/
def addPchSource (unit : Nat) (decl : UnitDecl) (file : List UInt8) : Gen PUnit := fun s =>
  match decl.sources with
  | none => .error .assertion
  | some tree =>
      if isFileInSources file (tree.addFiles (s.pchSources unit)) then .ok (⟨⟩, s)
      else .ok (⟨⟩, { s with pchSources := fun unit' => if unit' = unit then s.pchSources unit ++ [file] else s.pchSources unit' })

/-- The suffixes of C++ files. -/
def cppExts : List (List UInt8) := [lit ".cpp", lit ".cc", lit ".cxx", lit ".C"]

def setPchVars (e unit : Nat) (decl : UnitDecl) (header pass source : List UInt8) : Gen PUnit := do
  let pchDir := lit "$(OBJECTDIR)/__" ++ decl.name
  setVar e (lit "_PCH_HEADER") header
  setVar e (lit "_PCH_FILE") (pchDir ++ lit "/" ++ header ++ lit "$(_PCH_SUFFIX)")
  setVar e (lit "_PCH_INCLUDE_PATH") (gen.path.join pchDir header)
  setVar e (lit "_USE_PCH") (lit "$(_USE_PCH_OPT)")
  setVar e (lit "_PCH_SOURCE") (gen.path.normalize source)
  setVar e (lit "_PCH_PASS") pass
  setVar e (lit "PCHCOMPILE")
    (if gen.path.getExtension source ∈ cppExts then lit "$(PCHCOMPILE_CXX)" else lit "$(PCHCOMPILE_CC)")
  addPchSource unit decl (removePrefix (decl.sourceDir.getD []) source)

/-- The part of `customize_env` for precompiled headers. -/
def customizePch (e unit : Nat) (decl : UnitDecl) : Gen PUnit :=
  match decl.precompiledHeader with
  | none => pure ⟨⟩
  | some pch => do
      if (← getVar e (lit "_PCH_SUPPORTED") (some (lit "0"))) ≠ lit "0" then
        match pch.header, ← resolvePass gen pch.pass, pch.source with
        | none, _, _ => Stateful.fail .assertion
        | some _, none, _ => Stateful.fail .missingPass
        | some _, some _, none => Stateful.fail .assertion
        | some header, some pass, some source => setPchVars gen e unit decl header pass source

def customizeEnv (fuel e unit : Nat) (decl : UnitDecl) : Gen PUnit := do
  customizePdb gen fuel e decl
  customizePch gen e unit decl
  if ← hasKey e (lit "MODDEF") then setVar e (lit "_USE_MODDEF") (lit "$(_USE_MODDEF_OPT)")

/-! ### Units -/

/-- What `create_dag` collects from the units depended on: nodes and sources. -/
structure Linked where
  extraDeps : List Nat
  sources : List (List UInt8)

/-- The name of a shared library as the linker wants it. -/
def linkName (libpfx file : List UInt8) : List UInt8 :=
  gen.path.dropSuffix (if libpfx <+: file then file.drop libpfx.length else file) ++ lit "$(SHLIBLINKSUFFIX)"

section CreateDag

variable (getDag : Nat → Nat → Gen Nat) (fuel e base : Nat)

/-- The variables a shared library adds to. -/
def linkShared (decl : UnitDecl) : Gen PUnit := do
  let target ← interpolate fuel e (decl.target.getD decl.name) none
  let libpfx ← interpolate fuel e (lit "$(LIBPREFIX)") none
  appendVar e (lit "LIBS") (linkName gen libpfx (gen.path.split target).2)
  if (gen.path.split target).1 ≠ [] then appendVar e (lit "LIBPATH") (gen.path.split target).1

/-- A shared library is linked with if it has outputs, that is, if it is not filtered out. -/
def linkSharedNode (decl : UnitDecl) (linked : Linked) (index : Nat) : Gen Linked := do
  if (← getNode index).outputs = [] then pure linked
  else do
    linkShared gen fuel e decl
    return { linked with extraDeps := linked.extraDeps ++ [index] }

/-- The outputs of a static library are sources, unless a static library is made. -/
def linkStaticNode (keyword : Keyword) (libsuffix : List UInt8) (linked : Linked) (index : Nat) : Gen Linked := do
  let node ← getNode index
  let files := if keyword = .staticLibrary then [] else outputFiles gen [libsuffix] node
  return ⟨linked.extraDeps ++ [index], linked.sources ++ files⟩

/-- The suffixes of object files, and of resource files if these are known. -/
def objectSuffixes : Gen (List (List UInt8)) := do
  let objectSuffix ← getVar e (lit "OBJECTSUFFIX") none
  if ← hasKey e (lit "W32RESSUFFIX") then
    do return [objectSuffix, ← getVar e (lit "W32RESSUFFIX") none] else pure [objectSuffix]

/-- The object files of a group are sources. -/
def linkGroupNode (suffixes : List (List UInt8)) (linked : Linked) (index : Nat) : Gen Linked := do
  let deps := (← getNode index).deps
  let files ← deps.mapM fun index => do return outputFiles gen suffixes (← getNode index)
  return ⟨linked.extraDeps ++ index :: deps, linked.sources ++ files.flatten⟩

def linkDep (keyword : Keyword) (libsuffix : List UInt8) (linked : Linked) (dep : Nat) : Gen Linked :=
  match gen.units[dep]? with
  | none => Stateful.fail .assertion
  | some decl =>
      match decl.keyword with
      | .sharedLibrary => getDag dep base >>= linkSharedNode gen fuel e decl linked
      | .staticLibrary => getDag dep base >>= linkStaticNode gen keyword libsuffix linked
      | .objGroup => do
          let suffixes ← objectSuffixes e
          getDag dep base >>= linkGroupNode gen suffixes linked
      | _ => pure linked

def pdbFiles (pdb : List UInt8) : List (List UInt8) :=
    if pdb = lit "0" then [] else [lit "$(_PDB_LINK_FILE)", lit "$(_PDB_CC_FILE)"]

/-- Files put at the end of a list that `get_list` has handed out, or of the new table that is its default. -/
def pushFiles (list : Option Nat) (files : List (List UInt8)) : Gen (List (List UInt8)) := fun s =>
  match list with
  | none => .ok (files, s)
  | some list =>
      let envs := files.foldl (fun envs file => envs.pushList list file) s.envs
      .ok ((envs.lists[list]?).getD [], { s with envs := envs })

/-- `aux_outputs`: the list `AUX_FILES_...` with the PDB files. -/
def auxOutputs (keyword : Keyword) : Gen (List (List UInt8)) := do
  let list := (← get).envs.getListRef e keyword.auxFiles
  let pdb ← getVar e (lit "GENERATE_PDB") (some (lit "0"))
  pushFiles list (pdbFiles pdb)

def getTarget (decl : UnitDecl) : List UInt8 :=
  decl.target.getD (lit "$(OBJECTDIR)/" ++ decl.keyword.namePrefix ++ decl.name ++ decl.keyword.suffix)

/-- `create_dag` of the native units. -/
def createNativeDag (decl : UnitDecl) (data : InputData) (deps inputDeps : List Nat) : Gen Nat := do
  let _ ← getVar e (lit "BUILD_ID") none
  let libsuffix ← getVar e (lit "LIBSUFFIX") none
  let _ ← getVar e (lit "SHLIBLINKSUFFIX") none
  let linked ← deps.foldlM (linkDep gen getDag fuel e base decl.keyword libsuffix) ⟨[], data.sources.getD []⟩
  let auxOutputFiles ← auxOutputs e decl.keyword
  let moddef ← hasKey e (lit "MODDEF")
  makeNode gen fuel e
    { label := decl.keyword.label
      pass := data.pass
      action := decl.keyword.action
      preAction := decl.preAction
      inputFiles := Front.uniq linked.sources
      inputFilesUntracked := data.untrackedSources.getD []
      outputFiles := decl.keyword.action.map fun _ => [getTarget decl]
      auxOutputFiles := auxOutputFiles
      implicitInputs := if moddef then [lit "$(MODDEF)"] else []
      dependencies := inputDeps ++ linked.extraDeps }

/-- `create_dag` of an external library. -/
def createExternalDag (decl : UnitDecl) (data : InputData) (inputDeps : List Nat) : Gen Nat := do
  let count := (← get).externalCounter
  modify fun s => { s with externalCounter := count + 1 }
  makeNode gen fuel e
    { label := lit "dummy node for " ++ decl.name ++ lit " (" ++ lit (toString count) ++ lit ")"
      pass := data.pass
      dependencies := inputDeps }

def createDag (decl : UnitDecl) (data : InputData) (deps inputDeps : List Nat) : Gen Nat :=
  if decl.keyword = .externalLibrary then createExternalDag gen fuel e decl data inputDeps
  else createNativeDag gen getDag fuel e base decl data deps inputDeps

end CreateDag

/-- The environment `make_unit_env` makes a clone of. -/
def Generator.baseEnv (decl : UnitDecl) : Option Nat :=
  let env := (decl.subConfig.or gen.defaultSubconfig).bind fun subconfig => gen.baseEnvs.bind (· subconfig)
  match env with
  | some env => some env
  | none => if gen.veryVerbose ∧ gen.defaultSubconfig.isSome ∧ gen.baseEnvs.isSome then none else some gen.defaultEnv

/-- The unit an item of `Depends` stands for. -/
def Generator.resolveDep : DepRef → Option Nat
  | .name text => gen.unitNames text
  | .unit index => some index

def resolveDependencies (e : Nat) (decl : UnitDecl) : Gen (List Nat) :=
  match decl.depends with
  | none => pure []
  | some depends => do
      let buildId ← getVar e (lit "BUILD_ID") none
      match (flattenList (gen.accepts buildId) depends).mapM gen.resolveDep with
      | some deps => return deps
      | none => Stateful.fail (.unknownUnit decl.name)

/-- `do_it`, once the environment is configured: the unit's node is made. -/
def createNode (getDag : Nat → Nat → Gen Nat) (fuel parentEnv e base unit : Nat) (decl : UnitDecl) (deps : List Nat) :
    Gen Nat := do
  customizeEnv gen fuel e unit decl
  let (data, inputDeps) ← createInputData gen getDag fuel e unit decl
  let inputDeps ← deps.foldlM (fun inputDeps dep => do return inputDeps ++ [← getDag dep parentEnv]) inputDeps
  createDag gen getDag fuel e base decl data deps inputDeps

/-- `do_it`: the unit is taken up by its environment, and its node is made. -/
def createUnit (getDag : Nat → Nat → Gen Nat) (fuel parentEnv e base unit : Nat) (decl : UnitDecl) : Gen Nat := do
  setVar e (lit "UNIT_PREFIX") (lit "__" ++ decl.name)
  let deps ← resolveDependencies gen e decl
  configureEnv gen e decl deps
  createNode gen getDag fuel parentEnv e base unit decl deps

/-- The node of a unit that is filtered out. -/
def dummyNode (fuel parentEnv : Nat) (decl : UnitDecl) : Gen Nat := do
  let count := (← get).anonCount
  modify fun s => { s with anonCount := count + 1 }
  let pass ← resolvePass gen decl.pass
  makeNode gen fuel parentEnv
    { label := lit "Dummy node " ++ lit (toString count) ++ lit " for " ++ decl.name, pass := pass }

/-- The clone of an environment, which is known by its place. -/
def cloneEnv (base : Nat) :
    Gen Nat := fun s => .ok (s.envs.envs.length, { s with envs := s.envs.create (some base) [] })

/-- The node of a unit for which there is none yet. -/
def makeDag (getDag : Nat → Nat → Gen Nat) (fuel parentEnv unit : Nat) (buildId : List UInt8) (decl : UnitDecl) :
    Gen Nat :=
  if buildId ≠ [] ∧ gen.accepts buildId decl.config = false then dummyNode gen fuel parentEnv decl
  else
    match gen.baseEnv decl with
    | none => Stateful.fail .noSubconfig
    | some base => do
        let e ← cloneEnv base
        createUnit gen getDag fuel parentEnv e base unit decl

def rememberDag (unit : Nat) (buildId : List UInt8) (dag : Nat) : Gen Nat := fun s =>
  .ok (dag, { s with dagCache := fun unit' id => if unit' = unit ∧ id = buildId then some dag else s.dagCache unit' id })

def getDag : Nat → Nat → Nat → Gen Nat
  | 0, _, _ => Stateful.exhaust
  | fuel + 1, unit, parentEnv => do
      let buildId ← getVar parentEnv (lit "BUILD_ID") none
      match (← get).dagCache unit buildId, gen.units[unit]? with
      | some dag, _ => return dag
      | none, none => Stateful.fail .assertion
      | none, some decl => makeDag gen (getDag fuel) fuel parentEnv unit buildId decl >>= rememberDag unit buildId

end Tundra.Nodegen
