import Tundra.Lua.Environment
import Mathlib.Data.List.Infix

/-!
# What changes in the environments leave alone

The variables and parents of the environments are their skeleton. A change is quiet if it shows neither in the
skeleton nor in the lists, and it frames what there was if it only adds environments and lists. A list that is
handed out by `get_list` can be written to, so in general lists grow.

A clone starts without variables of its own, and the lists it gets are new.
-/

namespace Tundra.EnvState

variable {s s' s'' s₀ : EnvState} {d e : Nat} {key k : List UInt8} {items : List (List UInt8)}

theorem getElem?_of_isPrefix {α : Type} {l l' : List α} (h : l <+: l') {i : Nat} {a : α} (hi : l[i]? = some a) :
    l'[i]? = some a := by
  obtain ⟨hlt, rfl⟩ := List.getElem?_eq_some_iff.mp hi
  exact List.prefix_iff_getElem?.mp h i hlt

theorem vars_lt_pushList (s : EnvState) (list : Nat) (text : List UInt8) :
    ∀ env ∈ s.envs, ∀ (key : List UInt8) (i : Nat),
    env.vars key = some i → i < (s.lists.modify list (· ++ [text])).length := by
  intro env henv key i hi
  rw [List.length_modify]
  exact s.vars_lt env henv key i hi

/-- `t[#t + 1] = text` for a list that `get_list` has handed out. -/
def pushList (s : EnvState) (list : Nat) (text : List UInt8) : EnvState where
  lists := s.lists.modify list (· ++ [text])
  envs := s.envs
  parent_lt := s.parent_lt
  vars_lt := s.vars_lt_pushList list text

/-- The variables and parents of the environments. -/
def skeleton (s : EnvState) :
    List ((List UInt8 → Option Nat) × Option Nat) := s.envs.map fun env => (env.vars, env.parent)

@[simp] theorem length_skeleton (s : EnvState) : s.skeleton.length = s.envs.length := List.length_map _

theorem getListRef_congr_skeleton (h : ∀ i ≤ d, s'.skeleton[i]? = s.skeleton[i]?) :
    s'.getListRef d key = s.getListRef d key := by
  refine getListRef_congr fun i hi => ?_
  have hi := h i hi
  rw [skeleton, skeleton, List.getElem?_map, List.getElem?_map] at hi
  have hvars := congrArg (Option.map Prod.fst) hi
  have hparent := congrArg (Option.map Prod.snd) hi
  simp only [Option.map_map] at hvars hparent
  exact ⟨hvars, hparent⟩

/-- The variables are looked up in the environment, and then in its parent. -/
theorem getListRef_skeleton {vars : List UInt8 → Option Nat} {parent : Option Nat}
    (h : s.skeleton[e]? = some (vars, parent)) :
    s.getListRef e key = (vars key).or (parent.bind fun p => s.getListRef p key) := by
  rw [skeleton, List.getElem?_map, Option.map_eq_some_iff] at h
  obtain ⟨env, henv, h⟩ := h
  rw [getListRef_eq, henv]
  cases h
  rfl

/-! ### Quiet changes -/

/-- Only the caches of interpolations differ. -/
structure Quiet (s s' : EnvState) : Prop where
  skeleton : s'.skeleton = s.skeleton
  lists : s'.lists = s.lists

theorem Quiet.refl (s : EnvState) : Quiet s s := ⟨rfl, rfl⟩

theorem Quiet.trans (h : Quiet s s') (h' : Quiet s' s'') :
    Quiet s s'' := ⟨h'.skeleton.trans h.skeleton, h'.lists.trans h.lists⟩

theorem skeleton_modify (s : EnvState) {f : Environment → Environment} (hvars : ∀ env, (f env).vars = env.vars)
    (hparent : ∀ env, (f env).parent = env.parent) (e : Nat) :
    (s.envs.modify e f).map (fun env => (env.vars, env.parent)) = s.skeleton := by
  apply List.ext_getElem?
  intro i
  rw [List.getElem?_map, skeleton, List.getElem?_map]
  refine map_getElem?_modify (fun env : Environment => (env.vars, env.parent)) f (fun env => ?_) s.envs e i
  rw [hvars, hparent]

theorem Quiet.store (s : EnvState) (e : Nat) (str text : List UInt8) : Quiet s (s.store e str text) :=
  ⟨s.skeleton_modify (f := storeEntry str text) (fun _ => rfl) (fun _ => rfl) e, rfl⟩

theorem Quiet.interpolate (s : EnvState) (fuel e : Nat) (str : List UInt8)
    (vars : Option (List UInt8 → Option (List (List UInt8)))) :
    Quiet s (s.interpolate fuel e str vars).1 := by
  rw [EnvState.interpolate]
  cases s.cached e str with
  | some text => exact .refl s
  | none =>
      simp only
      cases luaInterpolate (s.lookup e none) fuel str with
      | ok text => exact .store s e str text
      | error err => exact .refl s
      | outOfFuel => exact .refl s

/-! ### Frames -/

/-- The environments and lists of `s` are as they were; there may be others. -/
structure Frame (s s' : EnvState) : Prop where
  skeleton : s.skeleton <+: s'.skeleton
  lists : s.lists <+: s'.lists

/-- The environments of `s` refer to the lists they did, and these may have grown. -/
structure Grows (s s' : EnvState) : Prop where
  skeleton : s.skeleton <+: s'.skeleton
  lists : ∀ (i : Nat) (l : List (List UInt8)), s.lists[i]? = some l → ∃ l', s'.lists[i]? = some l' ∧ l <+: l'

theorem Frame.refl (s : EnvState) : Frame s s := ⟨List.prefix_rfl, List.prefix_rfl⟩

theorem Frame.trans (h : Frame s s') (h' : Frame s' s'') :
    Frame s s'' := ⟨h.skeleton.trans h'.skeleton, h.lists.trans h'.lists⟩

theorem Quiet.frame (h : Quiet s s') : Frame s s' := ⟨h.skeleton ▸ List.prefix_rfl, h.lists ▸ List.prefix_rfl⟩

theorem Frame.grows (h : Frame s s') : Grows s s' where
  skeleton := h.skeleton
  lists _ l hl := ⟨l, getElem?_of_isPrefix h.lists hl, List.prefix_rfl⟩

theorem Grows.trans (h : Grows s s') (h' : Grows s' s'') : Grows s s'' where
  skeleton := h.skeleton.trans h'.skeleton
  lists i l hl := by
    obtain ⟨l', hl', hle⟩ := h.lists i l hl
    obtain ⟨l'', hl'', hle'⟩ := h'.lists i l' hl'
    exact ⟨l'', hl'', hle.trans hle'⟩

theorem Grows.length_le (h : Grows s s') : s.envs.length ≤ s'.envs.length := by
  simpa using h.skeleton.length_le

theorem Grows.getListRef_eq (h : Grows s s') (hd : d < s.envs.length) : s'.getListRef d key = s.getListRef d key := by
  refine getListRef_congr_skeleton fun i hi => ?_
  have hi : i < s.skeleton.length := by
    rw [length_skeleton]
    omega
  rw [List.getElem?_eq_getElem hi]
  exact getElem?_of_isPrefix h.skeleton (List.getElem?_eq_getElem hi)

theorem Frame.getList_eq (h : Frame s s') (hd : d < s.envs.length) : s'.getList d key = s.getList d key := by
  rw [EnvState.getList, EnvState.getList, h.grows.getListRef_eq hd]
  cases hi : s.getListRef d key with
  | none => rfl
  | some i =>
      obtain ⟨l, hl⟩ : ∃ l, s.lists[i]? = some l := ⟨_, List.getElem?_eq_getElem (getListRef_lt hi)⟩
      exact (getElem?_of_isPrefix h.lists hl).trans hl.symm

theorem Frame.newEnv (s : EnvState) (parent : Option Nat) : Frame s (s.newEnv parent) := by
  rw [EnvState.newEnv]
  split_ifs with h
  · exact ⟨by simp [EnvState.skeleton], List.prefix_rfl⟩
  · exact .refl s

theorem skeleton_assign (s : EnvState) (e : Nat) (key : List UInt8) (items : List (List UInt8)) :
    (s.assign e key items).skeleton = s.skeleton.modify e
    fun env => (fun k => if k = key then some s.lists.length else env.1 k, env.2) := by
  apply List.ext_getElem?
  intro i
  simp only [skeleton, assign, List.getElem?_map, List.getElem?_modify, Option.map_eq_map, Option.map_map]
  congr 1
  funext env
  simp only [Function.comp_apply]
  split_ifs <;> rfl

theorem prefix_modify {α : Type} {l l' : List α} (h : l <+: l') {i : Nat} (hi : l.length ≤ i) (f : α → α) :
    l <+: l'.modify i f := by
  rw [List.prefix_iff_getElem?] at h ⊢
  intro j hj
  rw [List.getElem?_modify_ne _ _ (by omega), h j hj]

theorem Frame.assign (h : Frame s₀ s) (he : s₀.envs.length ≤ e) (key : List UInt8) (items : List (List UInt8)) :
    Frame s₀ (s.assign e key items) where
  skeleton := by
    rw [skeleton_assign]
    exact prefix_modify h.skeleton (by rwa [length_skeleton]) _
  lists := h.lists.trans (List.prefix_append _ _)

theorem Frame.quiet (h : Frame s₀ s) (h' : Quiet s s') : Frame s₀ s' := h.trans h'.frame

theorem Frame.pushList (h : Frame s₀ s) {i : Nat} (hi : s₀.lists.length ≤ i) (text : List UInt8) :
    Frame s₀ (s.pushList i text) :=
  ⟨h.skeleton, prefix_modify h.lists hi _⟩

theorem Grows.assign (h : Grows s₀ s) (he : s₀.envs.length ≤ e) (key : List UInt8) (items : List (List UInt8)) :
    Grows s₀ (s.assign e key items) where
  skeleton := by
    rw [skeleton_assign]
    exact prefix_modify h.skeleton (by rwa [length_skeleton]) _
  lists i l hl := by
    obtain ⟨l', hl', hle⟩ := h.lists i l hl
    exact ⟨l', getElem?_of_isPrefix (List.prefix_append _ _) hl', hle⟩

theorem getElem?_pushList (s : EnvState) (i : Nat) (text : List UInt8) {l : List (List UInt8)}
    (h : s.lists[i]? = some l) :
    (s.pushList i text).lists[i]? = some (l ++ [text]) := by
  simp [EnvState.pushList, h]

theorem Grows.pushList (s : EnvState) (i : Nat) (text : List UInt8) : Grows s (s.pushList i text) where
  skeleton := List.prefix_rfl
  lists j l hl := by
    by_cases hij : i = j
    · subst hij
      exact ⟨l ++ [text], s.getElem?_pushList i text hl, List.prefix_append _ _⟩
    · refine ⟨l, ?_, List.prefix_rfl⟩
      rw [EnvState.pushList, List.getElem?_modify_ne _ _ hij, hl]

theorem Grows.foldl_pushList (s : EnvState) (i : Nat) (texts : List (List UInt8)) :
    Grows s (texts.foldl (fun s text => s.pushList i text) s) := by
  induction texts generalizing s with
  | nil => exact (Frame.refl s).grows
  | cons text texts ih => exact (Grows.pushList s i text).trans (ih (s.pushList i text))

theorem Frame.foldl_pushList (h : Frame s₀ s) {i : Nat} (hi : s₀.lists.length ≤ i) (texts : List (List UInt8)) :
    Frame s₀ (texts.foldl (fun s text => s.pushList i text) s) := by
  induction texts generalizing s with
  | nil => exact h
  | cons text texts ih => exact ih (h.pushList hi text)

theorem getElem?_foldl_pushList (i : Nat) (texts : List (List UInt8)) {l : List (List UInt8)}
    (h : s.lists[i]? = some l) :
    (texts.foldl (fun s text => s.pushList i text) s).lists[i]? = some (l ++ texts) := by
  induction texts generalizing s l with
  | nil => rw [List.append_nil, List.foldl_nil, h]
  | cons text texts ih =>
      rw [List.foldl_cons, ih (s.getElem?_pushList i text h), List.append_assoc]
      rfl

/-! ### Clones -/

/-- The environment that was made after `s₀`: its parent, its own variables, and everything of `s₀` as it was. -/
structure Clone (s₀ : EnvState) (base : Nat) (own : List UInt8 → Option (List (List UInt8))) (s : EnvState) : Prop where
  frame : Frame s₀ s
  vars : ∃ vars, s.skeleton[s₀.envs.length]? = some (vars, some base) ∧ (∀ k, own k = none → vars k = none) ∧
    ∀ k items, own k = some items → ∃ i, s₀.lists.length ≤ i ∧ vars k = some i ∧ s.lists[i]? = some items

variable {base : Nat} {own : List UInt8 → Option (List (List UInt8))}

theorem Clone.start (hbase : base < s.envs.length) : Clone s base (fun _ => none) (s.newEnv (some base)) where
  frame := .newEnv s (some base)
  vars := by
    have hnew : ∀ p, some base = some p → p < s.envs.length := by
      intro p hp
      cases hp
      exact hbase
    refine ⟨fun _ => none, ?_, fun _ _ => rfl, fun k items h => by cases h⟩
    rw [EnvState.newEnv, dif_pos hnew, skeleton]
    simp

theorem Clone.base_lt (h : Clone s₀ base own s) : base < s₀.envs.length := by
  obtain ⟨vars, hvars, -⟩ := h.vars
  rw [skeleton, List.getElem?_map, Option.map_eq_some_iff] at hvars
  obtain ⟨env, henv, hvars⟩ := hvars
  exact s.parent_lt _ env base henv (congrArg Prod.snd hvars)

theorem Clone.of_frame (h : Clone s₀ base own s) (h' : Frame s s') : Clone s₀ base own s' where
  frame := h.frame.trans h'
  vars := by
    obtain ⟨vars, hvars, hnone, hsome⟩ := h.vars
    refine ⟨vars, getElem?_of_isPrefix h'.skeleton hvars, hnone, fun k items hown => ?_⟩
    obtain ⟨i, hle, hi, hitems⟩ := hsome k items hown
    exact ⟨i, hle, hi, getElem?_of_isPrefix h'.lists hitems⟩

/-- A clone sees its own variables, and those of its parent. -/
theorem Clone.getList_eq (h : Clone s₀ base own s) : s.getList s₀.envs.length k = (own k).or (s₀.getList base k) := by
  obtain ⟨vars, hvars, hnone, hsome⟩ := h.vars
  rw [EnvState.getList, getListRef_skeleton hvars]
  cases hown : own k with
  | none =>
      rw [hnone k hown, Option.none_or, Option.none_or, ← h.frame.getList_eq h.base_lt]
      rfl
  | some items =>
      obtain ⟨i, -, hi, hitems⟩ := hsome k items hown
      rw [hi]
      exact hitems

theorem Clone.assign (h : Clone s₀ base own s) (key : List UInt8) (items : List (List UInt8)) :
    Clone s₀ base (fun k => if k = key then some items else own k) (s.assign s₀.envs.length key items) where
  frame := h.frame.assign le_rfl key items
  vars := by
    obtain ⟨vars, hvars, hnone, hsome⟩ := h.vars
    refine ⟨fun k => if k = key then some s.lists.length else vars k, ?_, fun k hown => ?_, fun k items' hown => ?_⟩
    · rw [skeleton_assign, List.getElem?_modify_eq, hvars]
      rfl
    · simp only at hown ⊢
      split_ifs at hown ⊢ with hk
      exact hnone k hown
    · simp only at hown ⊢
      split_ifs at hown ⊢ with hk
      · cases hown
        exact ⟨s.lists.length, h.frame.lists.length_le, rfl, List.getElem?_concat_length⟩
      · obtain ⟨i, hle, hi, hitems⟩ := hsome k items' hown
        exact ⟨i, hle, hi, getElem?_of_isPrefix (List.prefix_append _ _) hitems⟩

/-- A list of the clone's own is newer than what there was, and any other is its parent's. -/
theorem Clone.getListRef_cases (h : Clone s₀ base own s) {i : Nat} (hi : s.getListRef s₀.envs.length k = some i) :
    ((own k).isSome ∧ s₀.lists.length ≤ i) ∨ (own k = none ∧ s₀.getListRef base k = some i) := by
  obtain ⟨vars, hvars, hnone, hsome⟩ := h.vars
  rw [getListRef_skeleton hvars] at hi
  cases hown : own k with
  | none =>
      rw [hnone k hown, Option.none_or, Option.bind_some, h.frame.grows.getListRef_eq h.base_lt] at hi
      exact .inr ⟨rfl, hi⟩
  | some items =>
      obtain ⟨j, hle, hj, -⟩ := hsome k items hown
      rw [hj] at hi
      cases hi
      exact .inl ⟨rfl, hle⟩

end Tundra.EnvState
