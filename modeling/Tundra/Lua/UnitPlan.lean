import Tundra.Lua.NodegenSteps
import Mathlib.Logic.Relation

/-!
# What a unit asks for

What happens when a unit is generated is settled by the declarations and by the variables of the configuration's
environments: the environment it clones, the units it depends on, the variables its own environment gets, the
units it asks for, and whether it writes to a list that is not its own.
-/

namespace Tundra.Nodegen

def buildId (s : EnvState) (e : Nat) : Option (List UInt8) := (s.getList e (lit "BUILD_ID")).map concat

mutual

def unitsIn : SourceTree → List Nat
  | .file _ => []
  | .unit index => [index]
  | .node _ => []
  | .table _ _ items => unitsInItems items

def unitsInItems : List SourceTree → List Nat
  | [] => []
  | item :: items => unitsIn item ++ unitsInItems items

end

theorem unitsInItems_addFiles (accepts : Option ConfigPattern → Bool) (items : List SourceTree)
    (files : List (List UInt8)) :
    unitsInItems (filterItems accepts (items ++ files.map .file)) = unitsInItems (filterItems accepts items) := by
  induction items with
  | nil =>
      induction files with
      | nil => rfl
      | cons file files ih => exact ih
  | cons item items ih => simp only [List.cons_append, filterItems, unitsInItems, ih]

/-- Files at the end of the sources change nothing about the units among them. -/
theorem unitsInItems_filterStructure (accepts : Option ConfigPattern → Bool) (tree : SourceTree)
    (files : List (List UInt8)) :
    unitsInItems (filterStructure accepts (tree.addFiles files)).items = unitsInItems
    (filterStructure accepts tree).items := by
  cases tree with
  | table config sourceDir items =>
      simp only [SourceTree.addFiles, filterStructure]
      split_ifs
      · exact unitsInItems_addFiles accepts items files
      · rfl
  | file name => rfl
  | unit index => rfl
  | node index => rfl

/-- The variables of a clone after an assignment of `configure_env`, if its parent has those given first. -/
def Binding.take (inherited own : List UInt8 → Option (List (List UInt8))) :
    Binding → List UInt8 → Option (List (List UInt8))
  | push key text => fun k => if k = key then some (((own key).or (inherited key)).getD [] ++ [text]) else own k
  | replace key text => fun k => if k = key then some [text] else own k

/-- What `get_dag` finds for a unit. -/
structure Plan where
  decl : UnitDecl
  base : Nat
  baseId : List UInt8
  deps : List Nat

variable (gen : Generator)

def Generator.dependencies (buildId : List UInt8) (decl : UnitDecl) : Option (List Nat) :=
  match decl.depends with
  | none => some []
  | some depends => (flattenList (gen.accepts buildId) depends).mapM gen.resolveDep

def plan (s : EnvState) (unit : Nat) : Option Plan := do
  let decl ← gen.units[unit]?
  let base ← gen.baseEnv decl
  let baseId ← buildId s base
  let deps ← gen.dependencies baseId decl
  return ⟨decl, base, baseId, deps⟩

namespace Plan

variable (s : EnvState) (p : Plan)

/-- The variables of the unit's environment itself, once it is configured. -/
def own : List UInt8 → Option (List (List UInt8)) :=
  (bindings (gen.accepts p.baseId) p.decl.block (gen.propagated p.deps)).foldl (Binding.take (s.getList p.base))
    fun k => if k = lit "UNIT_PREFIX" then some [lit "__" ++ p.decl.name] else none

/-- The variables the unit's environment sees. -/
def sees (key : List UInt8) : Option (List (List UInt8)) := (p.own gen s key).or (s.getList p.base key)

/-- The build id the sources are filtered by. -/
def ownId : List UInt8 := ((p.sees gen s (lit "BUILD_ID")).map concat).getD []

def pdb : List UInt8 := ((p.sees gen s (lit "GENERATE_PDB")).map concat).getD (lit "0")

def sourceUnits : List Nat :=
  (p.decl.sources.toList ++ p.decl.untrackedSources.toList).flatMap
    fun tree => unitsInItems (filterStructure (gen.accepts (p.ownId gen s)) tree).items

/-- The unit puts the names of PDB files into a list that belongs to another environment. -/
def writesElsewhere : Bool :=
  p.decl.keyword ≠ .externalLibrary && p.pdb gen s ≠ lit "0" && (p.own gen s p.decl.keyword.auxFiles).isNone &&
    (s.getList p.base p.decl.keyword.auxFiles).isSome

end Plan

/-- The unit would write to a list of another environment. -/
def disturbs (s : EnvState) (unit : Nat) : Bool := (plan gen s unit).any (·.writesElsewhere gen s)

/-- The kinds of units that are linked with. -/
def isLinked (dep : Nat) : Bool :=
  gen.units[dep]?.any fun decl => decl.keyword = .sharedLibrary ∨ decl.keyword = .staticLibrary ∨
    decl.keyword = .objGroup

/-- The unit is not filtered out, and there is no node for it yet. -/
structure Generates (s : GenState) (unit : Nat) (id : List UInt8) : Prop where
  dagCache : s.dagCache unit id = none
  config : ∀ decl, gen.units[unit]? = some decl → ¬ (id ≠ [] ∧ gen.accepts id decl.config = false)

/-- A unit that is generated asks for another one. -/
inductive Requests (s : GenState) : Nat × List UInt8 → Nat × List UInt8 → Prop
  | depends {unit dep : Nat} {id : List UInt8} {p : Plan} (hgen : Generates gen s unit id)
      (hplan : plan gen s.envs unit = some p)
      (hdep : dep ∈ p.deps) : Requests s (unit, id) (dep, id)
  | links {unit dep : Nat} {id : List UInt8} {p : Plan} (hgen : Generates gen s unit id)
      (hplan : plan gen s.envs unit = some p)
      (hkeyword : p.decl.keyword ≠ .externalLibrary) (hdep : dep ∈ p.deps) (hlinked : isLinked gen dep = true) :
      Requests s (unit, id) (dep, p.baseId)
  | source {unit source : Nat} {id : List UInt8} {p : Plan} (hgen : Generates gen s unit id)
      (hplan : plan gen s.envs unit = some p)
      (hsource : source ∈ p.sourceUnits gen s.envs) : Requests s (unit, id) (source, p.ownId gen s.envs)

/-- None of the units that are generated when a unit is asked for writes to a list of another environment. -/
def Safe (s : GenState) (unit : Nat) (id : List UInt8) : Prop :=
  ∀ q, Relation.ReflTransGen (Requests gen s) (unit, id) q → Generates gen s q.1 q.2 → disturbs gen s.envs q.1 = false

/-- The environments that are cloned exist. -/
def Generator.Valid (s : EnvState) :
    Prop := ∀ decl ∈ gen.units, ∀ base, gen.baseEnv decl = some base → base < s.envs.length

variable {gen} {s s' : GenState}

/-! ### Frames -/

theorem Generator.Valid.mono {s s' : EnvState} (h : gen.Valid s) (hle : s.envs.length ≤ s'.envs.length) :
    gen.Valid s' :=
  fun decl hdecl base hbase => lt_of_lt_of_le (h decl hdecl base hbase) hle

theorem plan_eq_some_iff {s : EnvState} {unit : Nat} {p : Plan} : plan gen s unit = some p ↔
    gen.units[unit]? = some p.decl ∧ gen.baseEnv p.decl = some p.base ∧ buildId s p.base = some p.baseId ∧
      gen.dependencies p.baseId p.decl = some p.deps := by
  simp only [plan, Option.bind_eq_bind, Option.bind_eq_some_iff, Option.pure_def, Option.some.injEq]
  constructor
  · rintro ⟨decl, hdecl, base, hbase, baseId, hid, deps, hdeps, rfl⟩
    exact ⟨hdecl, hbase, hid, hdeps⟩
  · rintro ⟨hdecl, hbase, hid, hdeps⟩
    exact ⟨p.decl, hdecl, p.base, hbase, p.baseId, hid, p.deps, hdeps, rfl⟩

section Frame

variable {s s' : EnvState} (hvalid : gen.Valid s) (hframe : s.Frame s')

include hvalid hframe

theorem plan_frame (unit : Nat) : plan gen s' unit = plan gen s unit := by
  rw [plan, plan]
  cases hdecl : gen.units[unit]? with
  | none => rfl
  | some decl =>
      simp only [Option.bind_eq_bind, Option.bind_some]
      cases hbase : gen.baseEnv decl with
      | none => rfl
      | some base =>
          simp only [Option.bind_some]
          rw [buildId, hframe.getList_eq (hvalid decl (List.mem_of_getElem? hdecl) base hbase), buildId]

theorem getList_plan {unit : Nat} {p : Plan} (hplan : plan gen s unit = some p) :
    s'.getList p.base = s.getList p.base := by
  obtain ⟨hdecl, hbase, -, -⟩ := plan_eq_some_iff.mp hplan
  funext key
  exact hframe.getList_eq (hvalid p.decl (List.mem_of_getElem? hdecl) p.base hbase)

theorem own_plan {unit : Nat} {p : Plan} (hplan : plan gen s unit = some p) : p.own gen s' = p.own gen s := by
  rw [Plan.own, Plan.own, getList_plan hvalid hframe hplan]

theorem sees_plan {unit : Nat} {p : Plan} (hplan : plan gen s unit = some p) : p.sees gen s' = p.sees gen s := by
  funext key
  rw [Plan.sees, Plan.sees, own_plan hvalid hframe hplan, getList_plan hvalid hframe hplan]

theorem disturbs_frame (unit : Nat) : disturbs gen s' unit = disturbs gen s unit := by
  rw [disturbs, disturbs, plan_frame hvalid hframe]
  cases hplan : plan gen s unit with
  | none => rfl
  | some p =>
      have hpdb : p.pdb gen s' = p.pdb gen s := by rw [Plan.pdb, Plan.pdb, sees_plan hvalid hframe hplan]
      simp only [Option.any_some, Plan.writesElsewhere, hpdb, own_plan hvalid hframe hplan,
        getList_plan hvalid hframe hplan]

end Frame

/-- The nodes of units are kept. -/
def CacheGrows (s s' : GenState) : Prop := ∀ unit id, (s.dagCache unit id).isSome → (s'.dagCache unit id).isSome

/-- The units that have got a node are safe. -/
def NewSafe (gen : Generator) (s s' : GenState) : Prop :=
  ∀ unit id, (s'.dagCache unit id).isSome → (s.dagCache unit id).isSome ∨ Safe gen s unit id

section Transfer

variable (hvalid : gen.Valid s.envs) (hframe : s.envs.Frame s'.envs) (hcache : CacheGrows s s')

include hcache in
theorem Generates.of_later {unit : Nat} {id : List UInt8} (h : Generates gen s' unit id) : Generates gen s unit id where
  dagCache := by
    by_contra hne
    have hsome := hcache unit id (Option.isSome_iff_ne_none.mpr hne)
    rw [h.dagCache] at hsome
    cases hsome
  config := h.config

include hvalid hframe

/-- A unit that is generated later makes the requests it would have made before. -/
theorem Requests.of_later {q r : Nat × List UInt8} (h : Requests gen s' q r) (hgen : Generates gen s q.1 q.2) :
    Requests gen s q r := by
  cases h with
  | depends _ hplan hdep =>
      rw [plan_frame hvalid hframe] at hplan
      exact .depends hgen hplan hdep
  | links _ hplan hkeyword hdep hlinked =>
      rw [plan_frame hvalid hframe] at hplan
      exact .links hgen hplan hkeyword hdep hlinked
  | source _ hplan hsource =>
      rw [plan_frame hvalid hframe] at hplan
      rw [Plan.sourceUnits, Plan.ownId, sees_plan hvalid hframe hplan] at hsource
      rw [Plan.ownId, sees_plan hvalid hframe hplan]
      exact .source hgen hplan hsource

theorem Requests.later {q r : Nat × List UInt8} (h : Requests gen s q r) (hgen : Generates gen s' q.1 q.2) :
    Requests gen s' q r := by
  cases h with
  | depends _ hplan hdep => exact .depends hgen ((plan_frame hvalid hframe _).trans hplan) hdep
  | links _ hplan hkeyword hdep hlinked =>
      exact .links hgen ((plan_frame hvalid hframe _).trans hplan) hkeyword hdep hlinked
  | source _ hplan hsource =>
      rw [Plan.sourceUnits, Plan.ownId, ← sees_plan hvalid hframe hplan] at hsource
      rw [Plan.ownId, ← sees_plan hvalid hframe hplan]
      exact .source hgen ((plan_frame hvalid hframe _).trans hplan) hsource

include hcache in
theorem Safe.later {unit : Nat} {id : List UInt8} (h : Safe gen s unit id) : Safe gen s' unit id := by
  intro q hpath hgen
  rw [disturbs_frame hvalid hframe]
  refine h q (Relation.ReflTransGen.mono (fun q r hrequest => ?_) _ _ hpath) (hgen.of_later hcache)
  have hgen : Generates gen s' q.1 q.2 := by cases hrequest <;> assumption
  exact hrequest.of_later hvalid hframe (hgen.of_later hcache)

/-- What is safe later was so, if the units that have got a node since are safe. -/
theorem Safe.of_later (hnew : NewSafe gen s s') {unit : Nat} {id : List UInt8} (h : Safe gen s' unit id) :
    Safe gen s unit id := by
  intro q hpath hgen
  -- along the path, either nothing has got a node yet, or what has is known to be safe
  have hnode : ∀ r : Nat × List UInt8, Generates gen s r.1 r.2 → Generates gen s' r.1 r.2 ∨ Safe gen s r.1 r.2 := by
    intro r hr
    cases hsome : s'.dagCache r.1 r.2 with
    | none => exact .inl ⟨hsome, hr.config⟩
    | some dag =>
        rcases hnew r.1 r.2 (by rw [hsome]; rfl) with hold | hsafe
        · rw [hr.dagCache] at hold
          cases hold
        · exact .inr hsafe
  generalize hstart : (unit, id) = start at hpath
  obtain ⟨rfl, rfl⟩ : unit = start.1 ∧ id = start.2 := by simp [← hstart]
  clear hstart
  induction hpath using Relation.ReflTransGen.head_induction_on with
  | refl =>
      rcases hnode q hgen with hlater | hsafe
      · have := h q .refl hlater
        rwa [disturbs_frame hvalid hframe] at this
      · exact hsafe q .refl hgen
  | @head r r' hrequest hrest ih =>
      have hr : Generates gen s r.1 r.2 := by cases hrequest <;> assumption
      rcases hnode r hr with hlater | hsafe
      · refine ih fun q' hpath' hgen' => h q' (.head ?_ hpath') hgen'
        exact hrequest.later hvalid hframe hlater
      · exact hsafe q (.head hrequest hrest) hgen

end Transfer

end Tundra.Nodegen
