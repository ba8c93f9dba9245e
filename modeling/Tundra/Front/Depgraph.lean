import Tundra.Common
import Mathlib.Data.List.Sort
import Mathlib.Algebra.Order.Ring.Rat

/-!
# The nodes of the front end

`depgraph.lua`: the nodes a build file makes, one after another, before they are saved. A node refers to other
nodes, to its pass and to its scanner, which are Lua tables and are told apart by reference; a node is referred
to by its place in `all_nodes`.

The strings of a node are taken as they are once the environment has expanded them.
-/

namespace Tundra.Front

/-- `util.uniq`: the first occurrence of each value. -/
def uniq {α : Type} [DecidableEq α] (array : List α) : List α :=
  array.foldl (fun result val => if val ∈ result then result else result ++ [val]) []

section Uniq

variable {α : Type} [DecidableEq α]

private theorem foldl_uniq (array : List α) : ∀ result : List α, result.Nodup →
    (array.foldl (fun result val => if val ∈ result then result else result ++ [val]) result).Nodup ∧
      ∀ x, x ∈ array.foldl (fun result val => if val ∈ result then result else result ++ [val]) result ↔
      x ∈ result ∨ x ∈ array := by
  induction array with
  | nil => simp
  | cons val array ih =>
      intro result hresult
      rw [List.foldl_cons]
      by_cases hval : val ∈ result
      · rw [if_pos hval]
        obtain ⟨hnodup, hmem⟩ := ih result hresult
        refine ⟨hnodup, fun x => ?_⟩
        rw [hmem, List.mem_cons]
        constructor
        · rintro (h | h)
          · exact .inl h
          · exact .inr (.inr h)
        · rintro (h | rfl | h)
          · exact .inl h
          · exact .inl hval
          · exact .inr h
      · rw [if_neg hval]
        obtain ⟨hnodup, hmem⟩ := ih (result ++ [val])
          (by simpa [List.nodup_append] using ⟨hresult, fun x hx h => hval (h ▸ hx)⟩)
        refine ⟨hnodup, fun x => ?_⟩
        rw [hmem, List.mem_append, List.mem_singleton, List.mem_cons, or_assoc]

theorem nodup_uniq (array : List α) : (uniq array).Nodup := (foldl_uniq array [] List.nodup_nil).1

@[simp] theorem mem_uniq {array : List α} {x : α} : x ∈ uniq array ↔ x ∈ array := by
  rw [uniq, (foldl_uniq array [] List.nodup_nil).2 x]
  simp

end Uniq

/-- A pass that `Build` accepts: it has a name and a build order. -/
structure Pass where
  name : CString
  buildOrder : Rat

/-- `default_pass`, which `make_node` takes when no pass is given. -/
def defaultPass : Pass := ⟨.lit "Default", 100000⟩

/-- A reference to a pass: the default one or one of the passes of the build file. -/
inductive PassRef where
  | default
  | declared (index : Nat)
deriving DecidableEq

def PassRef.get (passes : Nat → Pass) : PassRef → Pass
  | .default => defaultPass
  | .declared index => passes index

/-- A node, `_node_mt`. -/
structure Node where
  pass : PassRef
  scanner : Option Nat
  deps : List Nat
  inputs : List CString
  outputs : List CString
  isPrecious : Bool
  expensive : Bool
  overwriteOutputs : Bool
  env : List (CString × CString)
  auxOutputs : List CString
  action : CString
  preaction : Option CString
  annotation : CString

/-- The argument of `make_node`. -/
structure NodeDecl where
  pass : Option PassRef
  scanner : Option Nat
  dependencies : List Nat
  inputFiles : List CString
  implicitInputs : List CString
  outputFiles : List CString
  auxOutputFiles : List CString
  precious : Bool
  expensive : Bool
  overwriteOutputs : Option Bool
  externalVars : List (CString × CString)
  action : Option CString
  preAction : Option CString
  label : Option CString

/-- `table.sort` on strings. -/
def sortStrings (strings : List CString) : List CString := strings.insertionSort fun l r => l.bytes ≤ r.bytes

/-- `make_node`: the new node, which is put behind the others. It is an error to have output files and no action. -/
def makeNode (data : NodeDecl) : Option Node :=
  if data.action.isNone ∧ data.outputFiles ≠ [] then none
  else some
    { pass := data.pass.getD .default
      scanner := data.scanner
      deps := uniq data.dependencies
      inputs := sortStrings (data.inputFiles ++ data.implicitInputs)
      outputs := sortStrings data.outputFiles
      isPrecious := data.precious
      expensive := data.expensive
      overwriteOutputs := data.overwriteOutputs.getD true
      env := data.externalVars
      auxOutputs := data.auxOutputFiles
      action := data.action.getD .empty
      preaction := data.preAction
      annotation := data.label.getD (.lit "?") }

/-- `all_nodes` after some calls of `make_node`, each with dependencies on nodes that exist. -/
inductive AllNodes : List Node → Prop
  | nil : AllNodes []
  | make {nodes : List Node} {data : NodeDecl} {node : Node} (hnodes : AllNodes nodes)
      (hdeps : ∀ d ∈ data.dependencies, d < nodes.length) (hmake : makeNode data = some node) :
        AllNodes (nodes ++ [node])

theorem AllNodes.deps_lt {nodes : List Node} (h : AllNodes nodes) {n : Nat} {node : Node}
    (hn : nodes[n]? = some node) {d : Nat} (hd : d ∈ node.deps) : d < n := by
  induction h with
  | nil => simp at hn
  | @make nodes data last _ hdeps hmake ih =>
      rw [List.getElem?_append] at hn
      split_ifs at hn with hlt
      · exact ih hn
      · obtain ⟨hzero, rfl⟩ : n - nodes.length = 0 ∧ last = node := by simpa [List.getElem?_singleton] using hn
        unfold makeNode at hmake
        split_ifs at hmake
        cases hmake
        have := hdeps d (mem_uniq.mp hd)
        omega

end Tundra.Front
