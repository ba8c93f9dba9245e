import Tundra.Lua.Interpolate
import Mathlib.Logic.Relation

/-!
# Environments

`environment.lua`: environments hold variables, each of them a list of strings, and have a parent where the
variables they lack are looked up. The lists are tables of Lua, so an environment holds references to them:
`lists` is the memory the references point to. An environment remembers the strings it has interpolated until
one of its own variables is changed.
-/

namespace Tundra

/-- `envclass`, less the fields that have nothing to do with variables. -/
structure Environment where
  vars : List UInt8 → Option Nat
  parent : Option Nat
  cachedInterpolation : List UInt8 → Option (List UInt8)

/-- The environments, each known by its number, and the lists their variables refer to. A parent is older than
its children. -/
structure EnvState where
  lists : List (List (List UInt8))
  envs : List Environment
  parent_lt : ∀ (i : Nat) (env : Environment) (p : Nat), envs[i]? = some env → env.parent = some p → p < i
  vars_lt : ∀ env ∈ envs, ∀ (key : List UInt8) (list : Nat), env.vars key = some list → list < lists.length

/-- The value of a variable in a call: a string or a table. -/
inductive EnvValue where
  | string (text : List UInt8)
  | table (items : List (List UInt8))

/-- The list `set` makes of a value: an empty string makes an empty list. -/
def EnvValue.setList : EnvValue → List (List UInt8)
  | .string [] => []
  | .string text => [text]
  | .table items => items

/-- The list `replace` makes of a value. -/
def EnvValue.replaceList : EnvValue → List (List UInt8)
  | .string text => [text]
  | .table items => items

namespace EnvState

/-- The walk from an environment to its parents, with a bound on its length. -/
def findVar (envs : List Environment) (key : List UInt8) : Nat → Nat → Option Nat
  | 0, _ => none
  | steps + 1, i => envs[i]?.bind fun env => (env.vars key).or (env.parent.bind fun p => findVar envs key steps p)

variable (s : EnvState)

/-- The list a variable refers to, as `get_list` hands it out. -/
def getListRef (e : Nat) (key : List UInt8) : Option Nat := findVar s.envs key (e + 1) e

/-- The items of a variable. -/
def getList (e : Nat) (key : List UInt8) :
    Option (List (List UInt8)) := (s.getListRef e key).bind fun list => s.lists[list]?

def hasKey (e : Nat) (key : List UInt8) : Bool := (s.getListRef e key).isSome

/-- The variables of an environment and its parents, with per-call variables. -/
def lookup (e : Nat) (vars : Option (List UInt8 → Option (List (List UInt8)))) : EnvLookup := ⟨vars, s.getList e⟩

theorem parent_lt_modify (f : Environment → Environment) (hf : ∀ env, (f env).parent = env.parent) (e : Nat) :
    ∀ (i : Nat) (env : Environment) (p : Nat), (s.envs.modify e f)[i]? = some env → env.parent = some p → p < i := by
  intro i env p henv hp
  rw [List.getElem?_modify, Option.map_eq_map, Option.map_eq_some_iff] at henv
  obtain ⟨old, hold, rfl⟩ := henv
  refine s.parent_lt i old p hold ?_
  split_ifs at hp with he
  · rwa [hf] at hp
  · exact hp

theorem vars_lt_modify (f : Environment → Environment) {lists : List (List (List UInt8))}
    (hlists : s.lists.length ≤ lists.length)
    (hf : ∀ env key list, (f env).vars key = some list → env.vars key = some list ∨ list < lists.length) (e : Nat) :
    ∀ env ∈ s.envs.modify e f, ∀ (key : List UInt8) (list : Nat), env.vars key = some list → list < lists.length := by
  intro env henv key list hlist
  obtain ⟨i, hi⟩ := List.mem_iff_getElem?.mp henv
  rw [List.getElem?_modify, Option.map_eq_map, Option.map_eq_some_iff] at hi
  obtain ⟨old, hold, rfl⟩ := hi
  have hvalid := s.vars_lt old (List.mem_of_getElem? hold) key list
  split_ifs at hlist with he
  · rcases hf old key list hlist with h | h
    · exact lt_of_lt_of_le (hvalid h) hlists
    · exact h
  · exact lt_of_lt_of_le (hvalid hlist) hlists

def clearCache (env : Environment) : Environment := { env with cachedInterpolation := fun _ => none }

theorem vars_lt_clearCache (e : Nat) : ∀ env ∈ s.envs.modify e clearCache, ∀ (key : List UInt8) (list : Nat),
    env.vars key = some list → list < s.lists.length :=
  s.vars_lt_modify clearCache le_rfl (fun _ _ _ h => .inl h) e

def invalidateMemos (e : Nat) : EnvState where
  lists := s.lists
  envs := s.envs.modify e clearCache
  parent_lt := s.parent_lt_modify clearCache (fun _ => rfl) e
  vars_lt := s.vars_lt_clearCache e

/-- Forget what was interpolated, and let a variable refer to a list. -/
def setVar (key : List UInt8) (list : Nat) (env : Environment) : Environment :=
  { clearCache env with vars := fun k => if k = key then some list else env.vars k }

theorem vars_lt_setVar (e : Nat) (key : List UInt8) (items : List (List UInt8)) :
    ∀ env ∈ s.envs.modify e (setVar key s.lists.length), ∀ (k : List UInt8) (list : Nat),
      env.vars k = some list → list < (s.lists ++ [items]).length := by
  refine s.vars_lt_modify (setVar key s.lists.length) (by simp) (fun env k list h => ?_) e
  simp only [setVar] at h
  split_ifs at h with hk
  · cases h
    exact .inr (by simp)
  · exact .inl h

/-- A variable gets a list of its own, after the memos have been invalidated. -/
def assign (e : Nat) (key : List UInt8) (items : List (List UInt8)) : EnvState where
  lists := s.lists ++ [items]
  envs := s.envs.modify e (setVar key s.lists.length)
  parent_lt := s.parent_lt_modify (setVar key s.lists.length) (fun _ => rfl) e
  vars_lt := s.vars_lt_setVar e key items

/-- `set`. The memos are gone before the key is found to be empty. -/
def set (e : Nat) (key : List UInt8) (value : EnvValue) : EnvState :=
  if key = [] then s.invalidateMemos e else s.assign e key value.setList

def setDefault (e : Nat) (key : List UInt8) (value : EnvValue) :
    EnvState := if s.hasKey e key then s else s.set e key value

/-- `append`: the variable gets a copy of the list with one more item. -/
def append (e : Nat) (key text : List UInt8) : EnvState := s.assign e key ((s.getList e key).getD [] ++ [text])

def replace (e : Nat) (key : List UInt8) (value : EnvValue) : EnvState := s.assign e key value.replaceList

theorem parent_lt_create {parent : Option Nat} (hparent : ∀ p, parent = some p → p < s.envs.length) :
    ∀ (i : Nat) (env : Environment) (p : Nat), (s.envs ++ [⟨fun _ => none, parent, fun _ => none⟩])[i]? = some env →
      env.parent = some p → p < i := by
  intro i env p henv hp
  rcases lt_or_ge i s.envs.length with hi | hi
  · rw [List.getElem?_append_left hi] at henv
    exact s.parent_lt i env p henv hp
  · rw [List.getElem?_append_right hi, List.getElem?_singleton] at henv
    split_ifs at henv with hzero
    cases henv
    have := hparent p hp
    omega

theorem vars_lt_create (parent : Option Nat) :
    ∀ env ∈ s.envs ++ [⟨fun _ => none, parent, fun _ => none⟩], ∀ (key : List UInt8) (list : Nat),
    env.vars key = some list → list < s.lists.length := by
  intro env henv key list hlist
  rcases List.mem_append.mp henv with henv | henv
  · exact s.vars_lt env henv key list hlist
  · rw [List.mem_singleton.mp henv] at hlist
    cases hlist

instance decidableParent (parent : Option Nat) (n : Nat) : Decidable (∀ p, parent = some p → p < n) :=
  decidable_of_iff (∀ p ∈ parent.toList, p < n) (by simp)

def newEnv (parent : Option Nat) : EnvState :=
  if h : ∀ p, parent = some p → p < s.envs.length then
    { lists := s.lists
      envs := s.envs ++ [⟨fun _ => none, parent, fun _ => none⟩]
      parent_lt := s.parent_lt_create h
      vars_lt := s.vars_lt_create parent }
  else s

/-- `create`, and `clone` when there is a parent. With an empty key among the assignments it fails, and the new
environment is lost. -/
def create (parent : Option Nat) (assignments : List (List UInt8 × EnvValue)) : EnvState :=
  if (∀ p, parent = some p → p < s.envs.length) ∧ ∀ a ∈ assignments, a.1 ≠ [] then
    assignments.foldl (fun s' a => s'.set s.envs.length a.1 a.2) (s.newEnv parent)
  else s

/-- Remember what a string was interpolated to. -/
def storeEntry (str text : List UInt8) (env : Environment) : Environment :=
  { env with cachedInterpolation := fun str' => if str' = str then some text else env.cachedInterpolation str' }

theorem vars_lt_store (e : Nat) (str text : List UInt8) :
    ∀ env ∈ s.envs.modify e (storeEntry str text), ∀ (key : List UInt8) (list : Nat),
    env.vars key = some list → list < s.lists.length :=
  s.vars_lt_modify (storeEntry str text) le_rfl (fun _ _ _ h => .inl h) e

/-- An entry of the cache. -/
def store (e : Nat) (str text : List UInt8) : EnvState where
  lists := s.lists
  envs := s.envs.modify e (storeEntry str text)
  parent_lt := s.parent_lt_modify (storeEntry str text) (fun _ => rfl) e
  vars_lt := s.vars_lt_store e str text

/-- The entry of a string in the cache. -/
def cached (e : Nat) (str : List UInt8) : Option (List UInt8) := s.envs[e]?.bind fun env => env.cachedInterpolation str

/-- The second half of `interpolate`: the per-call variables. -/
def interpolateCached (fuel : Nat) (e : Nat) (text : List UInt8) :
    Option (List UInt8 → Option (List (List UInt8))) → Outcome InterpolateError (List UInt8)
  | none => .ok text
  | some vars => luaInterpolate (s.lookup e (some vars)) fuel text

/-- `interpolate`, with fuel: what it returns and what it leaves. -/
def interpolate (fuel : Nat) (e : Nat) (str : List UInt8) (vars : Option (List UInt8 → Option (List (List UInt8)))) :
    EnvState × Outcome InterpolateError (List UInt8) :=
  match s.cached e str with
  | some text => (s, s.interpolateCached fuel e text vars)
  | none =>
      match luaInterpolate (s.lookup e none) fuel str with
      | .ok text => (s.store e str text, (s.store e str text).interpolateCached fuel e text vars)
      | .error err => (s, .error err)
      | .outOfFuel => (s, .outOfFuel)

theorem parent_lt_empty :
    ∀ (i : Nat) (env : Environment) (p : Nat), ([] : List Environment)[i]? = some env → env.parent = some p →
    p < i := by
  intro i env p henv
  simp at henv

theorem vars_lt_empty : ∀ env ∈ ([] : List Environment), ∀ (key : List UInt8) (list : Nat),
    env.vars key = some list → list < ([] : List (List (List UInt8))).length := by
  intro env henv
  cases henv

def empty : EnvState := ⟨[], [], parent_lt_empty, vars_lt_empty⟩

/-! ### The walk to the parents -/

variable {s} {e d : Nat} {key : List UInt8} {items : List (List UInt8)}

/-- No walk is longer than the number of its environment. -/
theorem findVar_eq (s : EnvState) (key : List UInt8) {steps i : Nat} (h : i < steps) :
    findVar s.envs key steps i = findVar s.envs key (i + 1) i := by
  induction i using Nat.strong_induction_on generalizing steps with
  | _ i ih =>
      obtain ⟨steps, rfl⟩ : ∃ k, steps = k + 1 := ⟨steps - 1, by omega⟩
      simp only [findVar]
      cases henv : s.envs[i]? with
      | none => rfl
      | some env =>
          simp only [Option.bind_some]
          cases hp : env.parent with
          | none => rfl
          | some p =>
              have hlt := s.parent_lt i env p henv hp
              simp only [Option.bind_some]
              rw [ih p hlt (by omega), ih p hlt hlt]

theorem getListRef_eq (s : EnvState) (e : Nat) (key : List UInt8) :
    s.getListRef e key = s.envs[e]?.bind fun env => (env.vars key).or
    (env.parent.bind fun p => s.getListRef p key) := by
  rw [getListRef, findVar]
  cases henv : s.envs[e]? with
  | none => rfl
  | some env =>
      simp only [Option.bind_some]
      cases hp : env.parent with
      | none => rfl
      | some p =>
          simp only [Option.bind_some]
          rw [findVar_eq s key (s.parent_lt e env p henv hp)]
          rfl

theorem getListRef_lt {list : Nat} (h : s.getListRef e key = some list) : list < s.lists.length := by
  induction e using Nat.strong_induction_on with
  | _ e ih =>
      rw [getListRef_eq, Option.bind_eq_some_iff] at h
      obtain ⟨env, henv, h⟩ := h
      rcases Option.or_eq_some_iff.mp h with h | ⟨-, h⟩
      · exact s.vars_lt env (List.mem_of_getElem? henv) key list h
      · obtain ⟨p, hp, h⟩ := Option.bind_eq_some_iff.mp h
        exact ih p (s.parent_lt e env p henv hp) h

theorem lt_of_getList (h : s.getList e key = some items) : e < s.envs.length := by
  by_contra hnot
  rw [getList, getListRef_eq, List.getElem?_eq_none (not_lt.mp hnot)] at h
  cases h

/-- One step of the walk: the environment lacks the variable and has a parent. -/
def Lacks (s : EnvState) (key : List UInt8) (d p : Nat) :
    Prop := ∃ env, s.envs[d]? = some env ∧ env.vars key = none ∧ env.parent = some p

/-- An environment sees a variable where a proper ancestor sees it. -/
def Inherits (s : EnvState) (key : List UInt8) (e d : Nat) : Prop := Relation.TransGen (s.Lacks key) d e

theorem Lacks.getListRef_eq {p : Nat} (h : s.Lacks key d p) : s.getListRef d key = s.getListRef p key := by
  obtain ⟨env, henv, hvars, hp⟩ := h
  rw [EnvState.getListRef_eq, henv, Option.bind_some, hvars, Option.none_or, hp, Option.bind_some]

theorem Inherits.getListRef_eq (h : s.Inherits key e d) : s.getListRef d key = s.getListRef e key := by
  induction h with
  | single hstep => exact hstep.getListRef_eq
  | tail _ hstep ih => exact ih.trans hstep.getListRef_eq

theorem Lacks.lt {p : Nat} (h : s.Lacks key d p) : p < d := by
  obtain ⟨env, henv, -, hp⟩ := h
  exact s.parent_lt d env p henv hp

theorem Inherits.lt (h : s.Inherits key e d) : e < d := by
  induction h with
  | single hstep => exact hstep.lt
  | tail _ hstep ih => exact hstep.lt.trans ih

/-! ### The effect of a change -/

theorem getElem?_assign (s : EnvState) (e : Nat) (key : List UInt8) (items : List (List UInt8)) (d : Nat) :
    (s.assign e key items).envs[d]? = s.envs[d]?.map fun env => if d = e then setVar key s.lists.length env
    else env := by
  simp only [assign, List.getElem?_modify, Option.map_eq_map]
  congr 1
  funext env
  simp only [eq_comm]

/-- The environment whose variable was changed, and those that inherit it from there, refer to the new list. -/
theorem getListRef_assign_of_inherits (he : e < s.envs.length) (h : d = e ∨ s.Inherits key e d) :
    (s.assign e key items).getListRef d key = some s.lists.length := by
  have hself : (s.assign e key items).getListRef e key = some s.lists.length := by
    rw [getListRef_eq, getElem?_assign, List.getElem?_eq_getElem he]
    simp [setVar]
  have hstep : ∀ {c p : Nat}, s.Lacks key c p → (s.assign e key items).getListRef p key = some s.lists.length →
      (s.assign e key items).getListRef c key = some s.lists.length := by
    rintro c p ⟨env, henv, hvars, hp⟩ hparent
    by_cases hce : c = e
    · rw [hce]
      exact hself
    · rw [getListRef_eq, getElem?_assign, henv]
      simp [hce, hvars, hp, hparent]
  rcases h with rfl | h
  · exact hself
  · induction h using Relation.TransGen.head_induction_on with
    | single hlacks => exact hstep hlacks hself
    | head hlacks _ ih => exact hstep hlacks ih

theorem getListRef_assign_of_not {k : List UInt8} (h : k ≠ key ∨ ¬ (d = e ∨ s.Inherits key e d)) :
    (s.assign e key items).getListRef d k = s.getListRef d k := by
  induction d using Nat.strong_induction_on with
  | _ d ih =>
      rw [getListRef_eq, getListRef_eq s, getElem?_assign]
      cases henv : s.envs[d]? with
      | none => rfl
      | some env =>
          simp only [Option.map_some, Option.bind_some]
          have hown : (if d = e then setVar key s.lists.length env else env).vars k = env.vars k := by
            split_ifs with hde
            · have hk : k ≠ key := h.resolve_right fun hnot => hnot (.inl hde)
              simp [setVar, hk]
            · rfl
          have hparent : (if d = e then setVar key s.lists.length env else env).parent = env.parent := by
            split_ifs <;> rfl
          rw [hown, hparent]
          cases hvars : env.vars k with
          | some list => rfl
          | none =>
              cases hp : env.parent with
              | none => rfl
              | some p =>
                  simp only [Option.none_or, Option.bind_some]
                  refine ih p (s.parent_lt d env p henv hp) ?_
                  refine or_iff_not_imp_left.mpr fun hk hpe => ?_
                  obtain rfl : k = key := not_not.mp hk
                  have hlacks : s.Lacks k d p := ⟨env, henv, hvars, hp⟩
                  refine (h.resolve_left hk) (.inr ?_)
                  rcases hpe with rfl | hpe
                  · exact .single hlacks
                  · exact .head hlacks hpe

theorem getList_assign_of_inherits (he : e < s.envs.length) (h : d = e ∨ s.Inherits key e d) :
    (s.assign e key items).getList d key = some items := by
  rw [getList, getListRef_assign_of_inherits he h]
  simp [assign]

theorem getList_assign_of_not {k : List UInt8} (h : k ≠ key ∨ ¬ (d = e ∨ s.Inherits key e d)) :
    (s.assign e key items).getList d k = s.getList d k := by
  rw [getList, getList, getListRef_assign_of_not h]
  cases hlist : s.getListRef d k with
  | none => rfl
  | some list => exact List.getElem?_append_left (getListRef_lt hlist)

/-- Environments that agree in their variables and parents see the same lists. -/
theorem getListRef_congr {s s' : EnvState}
    (h : ∀ i ≤ d, s'.envs[i]?.map Environment.vars = s.envs[i]?.map Environment.vars ∧
    s'.envs[i]?.map Environment.parent = s.envs[i]?.map Environment.parent) :
    s'.getListRef d key = s.getListRef d key := by
  induction d using Nat.strong_induction_on with
  | _ d ih =>
      obtain ⟨hvars, hparent⟩ := h d le_rfl
      rw [getListRef_eq, getListRef_eq s]
      cases henv : s.envs[d]? with
      | none =>
          rw [henv, Option.map_none, Option.map_eq_none_iff] at hvars
          rw [hvars]
          rfl
      | some env =>
          rw [henv, Option.map_some, Option.map_eq_some_iff] at hvars
          obtain ⟨env', henv', hvars⟩ := hvars
          rw [henv, henv', Option.map_some, Option.map_some, Option.some.injEq] at hparent
          simp only [henv', Option.bind_some, hvars, hparent]
          cases hp : env.parent with
          | none => rfl
          | some p =>
              have hlt := s.parent_lt d env p henv hp
              simp only [Option.bind_some]
              rw [ih p hlt fun i hi => h i (by omega)]

theorem map_getElem?_modify {α β : Type} (g : α → β) (f : α → α) (hf : ∀ a, g (f a) = g a) (l : List α) (e d : Nat) :
    (l.modify e f)[d]?.map g = l[d]?.map g := by
  rw [List.getElem?_modify, Option.map_eq_map, Option.map_map]
  congr 1
  funext a
  simp only [Function.comp_apply]
  split_ifs
  · exact hf a
  · rfl

@[simp] theorem getList_invalidateMemos (s : EnvState) (e d : Nat) (k : List UInt8) :
    (s.invalidateMemos e).getList d k = s.getList d k := by
  have href : (s.invalidateMemos e).getListRef d k = s.getListRef d k := getListRef_congr fun i _ =>
    ⟨map_getElem?_modify Environment.vars clearCache (fun _ => rfl) s.envs e i,
      map_getElem?_modify Environment.parent clearCache (fun _ => rfl) s.envs e i⟩
  rw [getList, getList, href]
  rfl

@[simp] theorem getList_store (s : EnvState) (e d : Nat) (str text k : List UInt8) :
    (s.store e str text).getList d k = s.getList d k := by
  have href : (s.store e str text).getListRef d k = s.getListRef d k := getListRef_congr fun i _ =>
    ⟨map_getElem?_modify Environment.vars (storeEntry str text) (fun _ => rfl) s.envs e i,
      map_getElem?_modify Environment.parent (storeEntry str text) (fun _ => rfl) s.envs e i⟩
  rw [getList, getList, href]
  rfl

/-- The environments there were are the same after another one is made. -/
theorem getElem?_newEnv (s : EnvState) (parent : Option Nat) (hd : d < s.envs.length) :
    (s.newEnv parent).envs[d]? = s.envs[d]? := by
  rw [newEnv]
  split_ifs with h
  · exact List.getElem?_append_left hd
  · rfl

theorem getList_newEnv (s : EnvState) (parent : Option Nat) (hd : d < s.envs.length) (k : List UInt8) :
    (s.newEnv parent).getList d k = s.getList d k := by
  have href : (s.newEnv parent).getListRef d k = s.getListRef d k := getListRef_congr fun i hi => by
    rw [getElem?_newEnv s parent (lt_of_le_of_lt hi hd)]
    exact ⟨rfl, rfl⟩
  have hlists : (s.newEnv parent).lists = s.lists := by
    rw [newEnv]
    split_ifs <;> rfl
  rw [getList, getList, href, hlists]

@[simp] theorem length_envs_assign (s : EnvState) (e : Nat) (key : List UInt8) (items : List (List UInt8)) :
    (s.assign e key items).envs.length = s.envs.length := List.length_modify _ _ _

@[simp] theorem length_envs_set (s : EnvState) (e : Nat) (key : List UInt8) (value : EnvValue) :
    (s.set e key value).envs.length = s.envs.length := by
  rw [EnvState.set]
  split_ifs
  · exact List.length_modify _ _ _
  · exact List.length_modify _ _ _

/-- A change in an environment does not show in older ones. -/
theorem getList_set_of_lt (hd : d < e) (value : EnvValue) (k : List UInt8) :
    (s.set e key value).getList d k = s.getList d k := by
  rw [EnvState.set]
  split_ifs with hkey
  · rw [getList_invalidateMemos]
  · refine getList_assign_of_not (.inr ?_)
    rintro (rfl | hinherits)
    · exact lt_irrefl d hd
    · exact absurd hinherits.lt (by omega)

end EnvState

end Tundra
