import Tundra.Lua.Environment

/-!
# The cache of interpolations

A cached interpolation depends on the variables of an environment and of all its ancestors, and is forgotten
when the environment's own variables change. A change in an ancestor leaves it behind: the cache serves the
current variables as long as no variable is changed under a cached string of a descendant that was interpolated
with it.
-/

namespace Tundra

inductive EnvCall where
  | create (parent : Option Nat) (assignments : List (List UInt8 × EnvValue))
  | set (e : Nat) (key : List UInt8) (value : EnvValue)
  | setDefault (e : Nat) (key : List UInt8) (value : EnvValue)
  | append (e : Nat) (key text : List UInt8)
  | replace (e : Nat) (key : List UInt8) (value : EnvValue)
  | interpolate (e : Nat) (str : List UInt8) (vars : Option (List UInt8 → Option (List (List UInt8))))

/-- What a call does to the environments. A call that fails counts, and one that never returns does not. -/
inductive EnvStep : EnvState → EnvCall → EnvState → Prop
  | create (s : EnvState) (parent : Option Nat) (assignments : List (List UInt8 × EnvValue)) :
      EnvStep s (.create parent assignments) (s.create parent assignments)
  | set (s : EnvState) (e : Nat) (key : List UInt8) (value : EnvValue) : EnvStep s (.set e key value)
      (s.set e key value)
  | setDefault (s : EnvState) (e : Nat) (key : List UInt8) (value : EnvValue) : EnvStep s (.setDefault e key value)
      (s.setDefault e key value)
  | append (s : EnvState) (e : Nat) (key text : List UInt8) : EnvStep s (.append e key text) (s.append e key text)
  | replace (s : EnvState) (e : Nat) (key : List UInt8) (value : EnvValue) : EnvStep s (.replace e key value)
      (s.replace e key value)
  | interpolate {s : EnvState} {e : Nat} {str : List UInt8} {vars : Option (List UInt8 → Option (List (List UInt8)))}
      {fuel : Nat}
      (hreturns : (s.interpolate fuel e str vars).2 ≠ .outOfFuel) : EnvStep s (.interpolate e str vars)
        (s.interpolate fuel e str vars).1

/-- The states histories of calls lead to, where every call meets a condition in the state it is made in. -/
inductive EnvReaches (P : EnvState → EnvCall → Prop) : EnvState → Prop
  | start : EnvReaches P .empty
  | call {s s' : EnvState} {call : EnvCall} (hreach : EnvReaches P s) (hstep : EnvStep s call s') (hcall : P s call) :
      EnvReaches P s'

/-- Interpolation with the cache returns what interpolation of the current variables does. -/
def EnvState.Coherent (s : EnvState) : Prop :=
  ∀ (e : Nat) (str : List UInt8) (r : Outcome InterpolateError (List UInt8)), r ≠ .outOfFuel →
    ((∃ fuel, (s.interpolate fuel e str none).2 = r) ↔ ∃ fuel, luaInterpolate (s.lookup e none) fuel str = r)

/-- The variable a call gives a new list. -/
def EnvCall.change (s : EnvState) : EnvCall → Option (Nat × List UInt8 × List (List UInt8))
  | .set e key value => if key = [] then none else some (e, key, value.setList)
  | .setDefault e key value => if s.hasKey e key ∨ key = [] then none else some (e, key, value.setList)
  | .append e key text => some (e, key, (s.getList e key).getD [] ++ [text])
  | .replace e key value => some (e, key, value.replaceList)
  | .create _ _ => none
  | .interpolate _ _ _ => none

/-- No string that is cached in an environment which inherits the variable was interpolated with it: the text
comes out without it too. -/
def EnvState.Unread (s : EnvState) (e : Nat) (key : List UInt8) : Prop :=
  ∀ d, s.Inherits key e d → ∀ str text, s.cached d str = some text →
    nenvInterpolate ⟨none, fun k => if k = key then none else s.getList d k⟩ str = .ok text

/-- The call leaves the variable it changes as it was, or no cached string of another environment depends on it. -/
def EnvCall.Harmless (s : EnvState) (call : EnvCall) : Prop :=
  ∀ e key items, call.change s = some (e, key, items) → s.getList e key = some items ∨ s.Unread e key

/-- What is cached is what interpolation comes to. -/
def EnvState.CacheSound (s : EnvState) :
    Prop := ∀ e str text, s.cached e str = some text → nenvInterpolate (s.lookup e none) str = .ok text

variable {s s' : EnvState} {e d : Nat} {key str text : List UInt8} {items : List (List UInt8)}

namespace EnvState

/-- A change leaves nothing in the cache of its environment, and the other caches alone. -/
theorem of_cached_assign (h : (s.assign e key items).cached d str = some text) :
    d ≠ e ∧ s.cached d str = some text := by
  rw [cached, getElem?_assign] at h
  cases henv : s.envs[d]? with
  | none => simp [henv] at h
  | some env =>
      rw [henv, Option.map_some, Option.bind_some] at h
      split_ifs at h with hde
      · cases h
      · exact ⟨hde, by rw [cached, henv]; exact h⟩

theorem of_cached_invalidateMemos (h : (s.invalidateMemos e).cached d str = some text) :
    s.cached d str = some text := by
  rw [cached, invalidateMemos, List.getElem?_modify] at h
  cases henv : s.envs[d]? with
  | none => simp [henv] at h
  | some env =>
      simp only [henv, Option.map_eq_map, Option.map_some, Option.bind_some] at h
      split_ifs at h with hde
      · cases h
      · rw [cached, henv]
        exact h

/-- What is visible from a descendant after a change, apart from the variable itself. -/
theorem below_assign (s : EnvState) (e d : Nat) (key : List UInt8) (items : List (List UInt8)) :
    EnvLookup.Below (fun _ => True) ⟨none, fun k => if k = key then none else s.getList d k⟩
    ((s.assign e key items).lookup d none) := by
  intro k
  by_cases hk : k = key
  · exact .inr ⟨by simp [EnvLookup.find, hk], trivial⟩
  · refine .inl ?_
    simp [EnvLookup.find, lookup, hk, getList_assign_of_not (.inl hk)]

theorem lookup_assign_of_not (h : ¬ (d = e ∨ s.Inherits key e d)) :
    (s.assign e key items).lookup d none = s.lookup d none := by
  simp only [lookup, EnvLookup.mk.injEq, true_and]
  funext k
  exact getList_assign_of_not (.inr h)

theorem lookup_assign_of_eq (he : s.getList e key = some items) (h : s.Inherits key e d) :
    (s.assign e key items).lookup d none = s.lookup d none := by
  simp only [lookup, EnvLookup.mk.injEq, true_and]
  funext k
  by_cases hk : k = key
  · subst hk
    rw [getList_assign_of_inherits (lt_of_getList he) (.inr h), getList, h.getListRef_eq]
    exact he.symm
  · exact getList_assign_of_not (.inl hk)

theorem CacheSound.assign (hsound : s.CacheSound) (h : s.getList e key = some items ∨ s.Unread e key) :
    (s.assign e key items).CacheSound := by
  intro d str text hcached
  obtain ⟨hde, hold⟩ := of_cached_assign hcached
  by_cases hinherits : s.Inherits key e d
  · rcases h with heq | hunread
    · rw [lookup_assign_of_eq heq hinherits]
      exact hsound d str text hold
    · have hbelow := nenvInterpolate_below (below_assign s e d key items) rfl str
      rw [hunread d hinherits str text hold] at hbelow
      exact hbelow.ok_eq
  · rw [lookup_assign_of_not (not_or.mpr ⟨hde, hinherits⟩)]
    exact hsound d str text hold

theorem CacheSound.invalidateMemos (hsound : s.CacheSound) (e : Nat) : (s.invalidateMemos e).CacheSound := by
  intro d str text hcached
  have hlookup : (s.invalidateMemos e).lookup d none = s.lookup d none := by
    simp only [lookup, EnvLookup.mk.injEq, true_and]
    funext k
    exact getList_invalidateMemos s e d k
  rw [hlookup]
  exact hsound d str text (of_cached_invalidateMemos hcached)

/-! ### New environments -/

/-- The environments of `s` are as they were, and those made since have cached nothing. -/
structure Extends (s s' : EnvState) : Prop where
  getList : ∀ d < s.envs.length, ∀ k, s'.getList d k = s.getList d k
  cached : ∀ d str text, s'.cached d str = some text → d < s.envs.length ∧ s.cached d str = some text

theorem Extends.newEnv (s : EnvState) (parent : Option Nat) : Extends s (s.newEnv parent) where
  getList d hd k := getList_newEnv s parent hd k
  cached d str text h := by
    rw [EnvState.cached, EnvState.newEnv] at h
    split_ifs at h with hparent
    · rcases lt_or_ge d s.envs.length with hd | hd
      · rw [List.getElem?_append_left hd] at h
        exact ⟨hd, h⟩
      · rw [List.getElem?_append_right hd, List.getElem?_singleton] at h
        split_ifs at h <;> cases h
    · rcases lt_or_ge d s.envs.length with hd | hd
      · exact ⟨hd, h⟩
      · rw [List.getElem?_eq_none hd] at h
        cases h

theorem Extends.set (h : Extends s s') (key : List UInt8) (value : EnvValue) :
    Extends s (s'.set s.envs.length key value) where
  getList d hd k := by
    rw [getList_set_of_lt hd]
    exact h.getList d hd k
  cached d str text hcached := by
    refine h.cached d str text ?_
    rw [EnvState.set] at hcached
    split_ifs at hcached
    · exact of_cached_invalidateMemos hcached
    · exact (of_cached_assign hcached).2

theorem Extends.foldl_set (assignments : List (List UInt8 × EnvValue)) (h : Extends s s') :
    Extends s (assignments.foldl (fun s' a => s'.set s.envs.length a.1 a.2) s') := by
  induction assignments generalizing s' with
  | nil => exact h
  | cons a assignments ih => exact ih (h.set a.1 a.2)

theorem Extends.create (s : EnvState) (parent : Option Nat) (assignments : List (List UInt8 × EnvValue)) :
    Extends s (s.create parent assignments) := by
  rw [EnvState.create]
  split_ifs with hvalid
  · exact Extends.foldl_set assignments (Extends.newEnv s parent)
  · refine ⟨fun d _ k => rfl, fun d str text h => ⟨?_, h⟩⟩
    by_contra hd
    rw [EnvState.cached, List.getElem?_eq_none (not_lt.mp hd)] at h
    cases h

theorem CacheSound.create (hsound : s.CacheSound) (parent : Option Nat) (assignments : List (List UInt8 × EnvValue)) :
    (s.create parent assignments).CacheSound := by
  have hextends := Extends.create s parent assignments
  intro d str text hcached
  obtain ⟨hd, hold⟩ := hextends.cached d str text hcached
  rw [← hsound d str text hold]
  congr 1
  simp only [lookup, EnvLookup.mk.injEq, true_and]
  funext k
  exact hextends.getList d hd k

/-! ### Interpolation -/

theorem of_cached_store {str' text' : List UInt8} (h : (s.store e str text).cached d str' = some text') :
    (d = e ∧ str' = str ∧ text' = text) ∨ s.cached d str' = some text' := by
  rw [cached, store, List.getElem?_modify] at h
  cases henv : s.envs[d]? with
  | none => simp [henv] at h
  | some env =>
      simp only [henv, Option.map_eq_map, Option.map_some, Option.bind_some] at h
      split_ifs at h with hde
      · simp only [storeEntry] at h
        split_ifs at h with hstr
        · exact .inl ⟨hde.symm, hstr, (Option.some.inj h).symm⟩
        · refine .inr ?_
          rw [cached, henv]
          exact h
      · refine .inr ?_
        rw [cached, henv]
        exact h

theorem CacheSound.store (hsound : s.CacheSound) (h : nenvInterpolate (s.lookup e none) str = .ok text) :
    (s.store e str text).CacheSound := by
  intro d str' text' hcached
  have hlookup : (s.store e str text).lookup d none = s.lookup d none := by
    simp only [lookup, EnvLookup.mk.injEq, true_and]
    funext k
    exact getList_store s e d str text k
  rw [hlookup]
  rcases of_cached_store hcached with ⟨rfl, rfl, rfl⟩ | hold
  · exact h
  · exact hsound d str' text' hold

theorem CacheSound.interpolate (hsound : s.CacheSound) (fuel e : Nat) (str : List UInt8)
    (vars : Option (List UInt8 → Option (List (List UInt8)))) : (s.interpolate fuel e str vars).1.CacheSound := by
  rw [EnvState.interpolate]
  cases s.cached e str with
  | some text => exact hsound
  | none =>
      simp only
      cases hresult : luaInterpolate (s.lookup e none) fuel str with
      | ok text => exact hsound.store ((nenvInterpolate_eq_iff (by simp)).mpr ⟨fuel, hresult⟩)
      | error err => exact hsound
      | outOfFuel => exact hsound

theorem CacheSound.coherent (hsound : s.CacheSound) : s.Coherent := by
  intro e str r hr
  rw [← nenvInterpolate_eq_iff hr]
  cases hcached : s.cached e str with
  | some text =>
      rw [hsound e str text hcached]
      have hreturn : ∀ fuel, (s.interpolate fuel e str none).2 = .ok text := by
        intro fuel
        rw [EnvState.interpolate, hcached]
        rfl
      simp only [hreturn, exists_const]
  | none =>
      have hreturn : ∀ fuel, (s.interpolate fuel e str none).2 = luaInterpolate (s.lookup e none) fuel str := by
        intro fuel
        rw [EnvState.interpolate, hcached]
        simp only
        cases luaInterpolate (s.lookup e none) fuel str <;> rfl
      simp only [hreturn]
      exact (nenvInterpolate_eq_iff hr).symm

end EnvState

/-! ### Histories -/

/-- A call that changes a variable gives it the list, and does nothing else. -/
theorem EnvStep.eq_assign {call : EnvCall} (hstep : EnvStep s call s')
    (hchange : call.change s = some (e, key, items)) :
    s' = s.assign e key items := by
  cases hstep with
  | create parent assignments => cases hchange
  | set e' key' value =>
      simp only [EnvCall.change] at hchange
      split_ifs at hchange with hkey
      cases hchange
      rw [EnvState.set, if_neg hkey]
  | setDefault e' key' value =>
      simp only [EnvCall.change] at hchange
      split_ifs at hchange with hkey
      cases hchange
      rw [not_or] at hkey
      rw [EnvState.setDefault, if_neg hkey.1, EnvState.set, if_neg hkey.2]
  | append e' key' text =>
      cases hchange
      rfl
  | replace e' key' value =>
      cases hchange
      rfl
  | interpolate hreturns => cases hchange

theorem EnvStep.cacheSound {call : EnvCall} (hstep : EnvStep s call s') (hharmless : call.Harmless s)
    (hsound : s.CacheSound) : s'.CacheSound := by
  cases hchange : call.change s with
  | some change =>
      obtain ⟨e, key, items⟩ := change
      rw [hstep.eq_assign hchange]
      exact hsound.assign (hharmless e key items hchange)
  | none =>
      cases hstep with
      | create parent assignments => exact hsound.create parent assignments
      | set e key value =>
          simp only [EnvCall.change] at hchange
          split_ifs at hchange with hkey
          rw [EnvState.set, if_pos hkey]
          exact hsound.invalidateMemos e
      | setDefault e key value =>
          simp only [EnvCall.change] at hchange
          split_ifs at hchange with hkey
          rw [EnvState.setDefault]
          split_ifs with hhas
          · exact hsound
          · rw [EnvState.set, if_pos (hkey.resolve_left hhas)]
            exact hsound.invalidateMemos e
      | append e key text => cases hchange
      | replace e key value => cases hchange
      | interpolate hreturns => exact hsound.interpolate _ _ _ _

theorem EnvState.CacheSound.empty : EnvState.empty.CacheSound := by
  intro e str text hcached
  simp [EnvState.cached, EnvState.empty] at hcached

theorem EnvReaches.cacheSound (hreach : EnvReaches (fun s call => call.Harmless s) s) : s.CacheSound := by
  induction hreach with
  | start => exact .empty
  | call _ hstep hharmless ih => exact hstep.cacheSound hharmless ih

/-- After every history of harmless calls, interpolation with the cache returns what it would without. -/
theorem interpolate_coherent (hreach : EnvReaches (fun s call => call.Harmless s) s) :
    s.Coherent := hreach.cacheSound.coherent

/-- A parent with the variable `X = a` and a child. -/
def parentAndChild : EnvState := (EnvState.empty.create none [([88], .string [97])]).create (some 0) []

theorem reaches_parentAndChild {P : EnvState → EnvCall → Prop}
    (hP : ∀ s parent assignments, P s (.create parent assignments)) :
    EnvReaches P parentAndChild :=
  .call (.call .start (.create _ _ _) (hP _ _ _)) (.create _ _ _) (hP _ _ _)

theorem cached_parentAndChild (e : Nat) (str : List UInt8) : parentAndChild.cached e str = none := by
  rw [Option.eq_none_iff_forall_not_mem]
  intro text hcached
  have hparent := ((EnvState.Extends.create _ (some 0) []).cached e str text hcached).2
  exact absurd ((EnvState.Extends.create _ none _).cached e str text hparent).1 (Nat.not_lt_zero e)

/-- The child has interpolated `$(X)`. -/
def warmChild : EnvState := (parentAndChild.interpolate 10 1 [36, 40, 88, 41] none).1

theorem cached_warmChild {e : Nat} {str text : List UInt8} (h : warmChild.cached e str = some text) :
    e = 1 ∧ str = [36, 40, 88, 41] ∧ text = [97] := by
  have hstored : warmChild = parentAndChild.store 1 [36, 40, 88, 41] [97] := by
    have hresult : luaInterpolate (parentAndChild.lookup 1 none) 10 [36, 40, 88, 41] = .ok [97] := by decide +kernel
    rw [warmChild, EnvState.interpolate, cached_parentAndChild]
    simp only [hresult]
  rw [hstored] at h
  rcases EnvState.of_cached_store h with hsame | hold
  · exact hsame
  · rw [cached_parentAndChild] at hold
    cases hold

/-- Under the text that is cached in the child, the parent gets another variable `Y`. -/
theorem interpolate_coherent_other :
    ∃ s, EnvReaches (fun s call => call.Harmless s) s ∧ s.cached 1 [36, 40, 88, 41] = some [97] ∧
    s.getList 1 [89] = some [[98]] ∧ s.Coherent := by
  have hchange : EnvCall.Harmless warmChild (.set 0 [89] (.string [98])) := by
    intro e key items hset
    obtain ⟨rfl, rfl, rfl⟩ : (0 : Nat) = e ∧ [89] = key ∧ [[98]] = items := by
      simpa [EnvCall.change, EnvValue.setList] using hset
    refine .inr fun d _ str text hcached => ?_
    obtain ⟨rfl, rfl, rfl⟩ := cached_warmChild hcached
    exact (nenvInterpolate_eq_iff (by simp)).mpr ⟨10, by decide +kernel⟩
  have hreach : EnvReaches (fun s call => call.Harmless s) (warmChild.set 0 [89] (.string [98])) := by
    refine .call (.call (reaches_parentAndChild fun s parent assignments e key items h => ?_) (.interpolate ?_) ?_)
      (.set _ _ _ _) hchange
    · cases h
    · decide +kernel
    · intro e key items h
      cases h
  exact ⟨_, hreach, by decide +kernel, by decide +kernel, interpolate_coherent hreach⟩

/-- The child has interpolated `$(X)`, and then the parent's variable was changed to `b`. -/
def staleChild : EnvState := (parentAndChild.interpolate 10 1 [36, 40, 88, 41] none).1.set 0 [88] (.string [98])

/-- The child still has the old text. -/
theorem interpolate_incoherent :
    EnvReaches (fun _ _ => True) staleChild ∧ (staleChild.interpolate 10 1 [36, 40, 88, 41] none).2 = .ok [97] ∧
    luaInterpolate (staleChild.lookup 1 none) 10 [36, 40, 88, 41] = .ok [98] ∧ ¬ staleChild.Coherent := by
  have hcached : (staleChild.interpolate 10 1 [36, 40, 88, 41] none).2 = .ok [97] := by decide +kernel
  have hfresh : luaInterpolate (staleChild.lookup 1 none) 10 [36, 40, 88, 41] = .ok [98] := by decide +kernel
  refine ⟨?_, hcached, hfresh, fun hcoherent => ?_⟩
  · refine .call (.call (reaches_parentAndChild fun _ _ _ => trivial) (.interpolate ?_) trivial) (.set _ _ _ _) trivial
    decide +kernel
  · obtain ⟨fuel, hold⟩ := (hcoherent 1 [36, 40, 88, 41] (.ok [97]) (by simp)).mp ⟨10, hcached⟩
    have holds := (nenvInterpolate_eq_iff (by simp)).mpr ⟨fuel, hold⟩
    rw [(nenvInterpolate_eq_iff (by simp)).mpr ⟨10, hfresh⟩] at holds
    cases holds

end Tundra
