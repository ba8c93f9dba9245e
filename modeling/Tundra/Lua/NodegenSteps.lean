import Tundra.Lua.Nodegen

/-!
# The steps of the generator

Most of what the generator does is quiet: it reads variables, interpolates, and makes nodes. The rest are
assignments to variables of the unit's own environment.
-/

namespace Tundra.Nodegen

open Stateful (Along)

variable {gen : Generator} {s s' s'' : GenState}

/-! ### Quiet steps -/

/-- The environments and the nodes of units are as they were. -/
structure QuietStep (s s' : GenState) : Prop where
  envs : s.envs.Quiet s'.envs
  dagCache : s'.dagCache = s.dagCache

theorem QuietStep.refl (s : GenState) : QuietStep s s := ⟨.refl _, rfl⟩

theorem QuietStep.trans (h : QuietStep s s') (h' : QuietStep s' s'') : QuietStep s s'' :=
  ⟨h.envs.trans h'.envs, h'.dagCache.trans h.dagCache⟩

abbrev IsQuiet {α : Type} (m : Gen α) : Prop := Along QuietStep m

variable {α β : Type} {m : Gen α} {f : α → Gen β}

theorem IsQuiet.pure (a : α) : IsQuiet (Pure.pure a : Gen α) := Along.pure QuietStep.refl a

theorem IsQuiet.bind (hm : IsQuiet m) (hf : ∀ a, IsQuiet (f a)) : IsQuiet (m >>= f) := Along.bind QuietStep.trans hm hf

theorem IsQuiet.get : IsQuiet (MonadState.get : Gen GenState) := Along.get QuietStep.refl

theorem IsQuiet.mapM {g : α → Gen β} (hg : ∀ x, IsQuiet (g x)) (l : List α) :
    IsQuiet (l.mapM g) := Along.mapM QuietStep.refl QuietStep.trans hg l

theorem IsQuiet.foldlM {g : β → α → Gen β} (hg : ∀ b x, IsQuiet (g b x)) (l : List α) (b : β) :
    IsQuiet (l.foldlM g b) :=
  Along.foldlM QuietStep.refl QuietStep.trans hg l b

theorem quiet_getVar (e : Nat) (key : List UInt8) (default : Option (List UInt8)) : IsQuiet (getVar e key default) := by
  refine IsQuiet.get.bind fun s => ?_
  split
  · exact .pure _
  · exact .pure _
  · exact Along.fail _

theorem of_getVar {e : Nat} {key text : List UInt8} {default : Option (List UInt8)}
    (hrun : getVar e key default s = .ok (text, s')) :
    s' = s ∧ ((s.envs.getList e key).map concat).or default = some text := by
  obtain ⟨_, _, hget, hrun⟩ := Stateful.of_bind hrun
  cases hget
  cases hitems : s.envs.getList e key with
  | some items =>
      simp only [hitems] at hrun
      cases hrun
      exact ⟨rfl, rfl⟩
  | none =>
      cases default with
      | some text =>
          simp only [hitems] at hrun
          cases hrun
          exact ⟨rfl, rfl⟩
      | none =>
          simp only [hitems] at hrun
          cases hrun

theorem quiet_getListVar (e : Nat) (key : List UInt8) : IsQuiet (getListVar e key) := by
  refine IsQuiet.get.bind fun s => ?_
  split
  · exact .pure _
  · exact Along.fail _

theorem quiet_hasKey (e : Nat) (key : List UInt8) : IsQuiet (hasKey e key) := IsQuiet.get.bind fun _ => .pure _

theorem quiet_interpolate (fuel e : Nat) (str : List UInt8) (vars : Option (List UInt8 → Option (List (List UInt8)))) :
    IsQuiet (interpolate fuel e str vars) := by
  intro s a s' hrun
  rw [interpolate] at hrun
  split at hrun
  · cases hrun
    exact ⟨.interpolate s.envs fuel e str vars, rfl⟩
  · cases hrun
  · cases hrun

theorem quiet_normalizePaths (fuel e : Nat) (paths : List (List UInt8)) : IsQuiet (normalizePaths gen fuel e paths) :=
  IsQuiet.mapM (fun file => (quiet_interpolate fuel e file none).bind fun _ => .pure _) paths

theorem quiet_addNode (node : DagNode) : IsQuiet (addNode node) := by
  intro s a s' hrun
  cases hrun
  exact ⟨.refl _, rfl⟩

theorem quiet_getNode (index : Nat) : IsQuiet (getNode index) := by
  refine IsQuiet.get.bind fun s => ?_
  split
  · exact .pure _
  · exact Along.fail _

theorem quiet_resolvePass (pass : Option (List UInt8)) : IsQuiet (resolvePass gen pass) := by
  cases pass with
  | none => exact .pure _
  | some name =>
      rw [resolvePass]
      split_ifs
      · exact .pure _
      · exact Along.fail _

theorem quiet_makeAction (fuel e : Nat) (cmdline : List UInt8 → Option (List (List UInt8)))
    (outputs : List (List UInt8)) (action : Option (List UInt8)) :
    IsQuiet (makeAction fuel e cmdline outputs action) := by
  cases action with
  | some action => exact quiet_interpolate fuel e action _
  | none =>
      rw [makeAction]
      split_ifs
      · exact .pure _
      · exact Along.fail _

theorem quiet_makePreaction (fuel e : Nat) (cmdline : List UInt8 → Option (List (List UInt8)))
    (preAction : Option (List UInt8)) :
    IsQuiet (makePreaction fuel e cmdline preAction) := by
  cases preAction with
  | some preAction => exact (quiet_interpolate fuel e preAction _).bind fun _ => .pure _
  | none => exact .pure _

theorem quiet_makeNode (fuel e : Nat) (data : NodeData) : IsQuiet (makeNode gen fuel e data) := by
  refine (quiet_getVar e _ none).bind fun sep => ?_
  refine (quiet_normalizePaths fuel e _).bind fun regularInputs => ?_
  refine (quiet_normalizePaths fuel e _).bind fun implicitInputs => ?_
  refine (quiet_normalizePaths fuel e _).bind fun outputs => ?_
  refine (IsQuiet.mapM (fun file => (quiet_interpolate fuel e file _).bind fun _ => .pure _) _).bind
    fun auxOutputs => ?_
  refine (quiet_makeAction fuel e _ _ _).bind fun action => (quiet_makePreaction fuel e _ _).bind fun preaction => ?_
  exact (quiet_interpolate fuel e _ _).bind fun annotation => quiet_addNode _

theorem quiet_splitSources (suffixes : List (List UInt8)) (items : List SourceItem) :
    IsQuiet (splitSources gen suffixes items) := by
  refine IsQuiet.foldlM (fun b item => ?_) items _
  cases item with
  | file name => exact .pure _
  | node index => exact (quiet_getNode index).bind fun _ => .pure _

theorem quiet_transform (fuel e : Nat) (pass : Option (List UInt8)) (suffixes : List (List UInt8))
    (result : List (List UInt8) × List Nat) (file : List UInt8) :
    IsQuiet (transform gen fuel e pass suffixes result file) := by
  rw [transform]
  split
  · refine IsQuiet.bind ?_ fun index => (quiet_getNode index).bind fun _ => .pure _
    refine IsQuiet.get.bind fun s => ?_
    dsimp only
    split
    · exact (IsQuiet.mapM (fun path => quiet_interpolate fuel e path none) _).bind fun _ => quiet_makeNode fuel e _
    · exact Along.fail _
  · exact .pure _

theorem quiet_transformLoop (fuel e : Nat) (pass : Option (List UInt8)) (suffixes : List (List UInt8))
    (rounds : Nat) (files : List (List UInt8)) (deps : List Nat) :
    IsQuiet (transformLoop gen fuel e pass suffixes rounds files deps) := by
  induction rounds generalizing files deps with
  | zero => exact Along.exhaust
  | succ rounds ih =>
      refine (IsQuiet.foldlM (quiet_transform fuel e pass suffixes) files _).bind fun result => ?_
      dsimp only
      split_ifs
      · exact .pure _
      · exact ih _ _

theorem quiet_dummyNode (fuel parentEnv : Nat) (decl : UnitDecl) : IsQuiet (dummyNode gen fuel parentEnv decl) := by
  refine IsQuiet.get.bind fun s => IsQuiet.bind (Along.modify fun s => ⟨.refl _, rfl⟩) fun _ => ?_
  exact (quiet_resolvePass _).bind fun pass => quiet_makeNode fuel parentEnv _

theorem quiet_createExternalDag (fuel e : Nat) (decl : UnitDecl) (data : InputData) (inputDeps : List Nat) :
    IsQuiet (createExternalDag gen fuel e decl data inputDeps) := by
  refine IsQuiet.get.bind fun s => IsQuiet.bind (Along.modify fun s => ⟨.refl _, rfl⟩) fun _ => ?_
  exact quiet_makeNode fuel e _

theorem quiet_addPchSource (unit : Nat) (decl : UnitDecl) (file : List UInt8) :
    IsQuiet (addPchSource unit decl file) := by
  intro s a s' hrun
  rw [addPchSource] at hrun
  split at hrun
  · cases hrun
  · split_ifs at hrun
    · cases hrun
      exact .refl s
    · cases hrun
      exact ⟨.refl _, rfl⟩

/-! ### Steps in the unit's own environment -/

/-- The variables on which it depends what a unit asks for and whether it writes to a list of another environment. -/
def watched : List (List UInt8) :=
  [lit "BUILD_ID", lit "GENERATE_PDB", Keyword.object.auxFiles, Keyword.program.auxFiles,
    Keyword.staticLibrary.auxFiles,
    Keyword.sharedLibrary.auxFiles, Keyword.externalLibrary.auxFiles, Keyword.objGroup.auxFiles]

theorem auxFiles_mem_watched (keyword : Keyword) : keyword.auxFiles ∈ watched := by
  cases keyword <;> simp [watched]

/-- Nothing that was there before the environment `e` is changed by more than growth, and the nodes of units stay. -/
structure LooseStep (e : Nat) (s s' : GenState) : Prop where
  length : s.envs.envs.length ≤ s'.envs.envs.length
  grows : ∀ s₀ : EnvState, s₀.envs.length ≤ e → s₀.Grows s.envs → s₀.Grows s'.envs
  lists : ∀ (i : Nat) (l : List (List UInt8)), s.envs.lists[i]? = some l → ∃ l', s'.envs.lists[i]? = some l' ∧ l <+: l'
  dagCache : ∀ unit id, (s.dagCache unit id).isSome → (s'.dagCache unit id).isSome

/-- Only variables of the environment `e` get new lists, and none that is watched. -/
structure OwnStep (e : Nat) (s s' : GenState) : Prop extends LooseStep e s s' where
  clone : ∀ (s₀ : EnvState) base own, s₀.envs.length = e → s₀.Clone base own s.envs →
    ∃ own', (∀ key ∈ watched, own' key = own key) ∧ s₀.Clone base own' s'.envs
  dagCache_eq : s'.dagCache = s.dagCache

variable {e : Nat}

theorem LooseStep.refl (e : Nat) (s : GenState) : LooseStep e s s :=
  ⟨le_rfl, fun _ _ h => h, fun _ l hl => ⟨l, hl, List.prefix_rfl⟩, fun _ _ h => h⟩

theorem LooseStep.trans (h : LooseStep e s s') (h' : LooseStep e s' s'') : LooseStep e s s'' where
  length := h.length.trans h'.length
  grows s₀ hle hgrows := h'.grows s₀ hle (h.grows s₀ hle hgrows)
  lists i l hl := by
    obtain ⟨l', hl', hle⟩ := h.lists i l hl
    obtain ⟨l'', hl'', hle'⟩ := h'.lists i l' hl'
    exact ⟨l'', hl'', hle.trans hle'⟩
  dagCache unit id hsome := h'.dagCache unit id (h.dagCache unit id hsome)

theorem LooseStep.of_grows (h : s.envs.Grows s'.envs)
    (hcache : ∀ unit id, (s.dagCache unit id).isSome → (s'.dagCache unit id).isSome) :
    LooseStep e s s' :=
  ⟨h.length_le, fun _ _ hgrows => hgrows.trans h, h.lists, hcache⟩

theorem OwnStep.of_quiet (h : QuietStep s s') : OwnStep e s s' where
  toLooseStep := .of_grows h.envs.frame.grows fun unit id hsome => by rwa [h.dagCache]
  clone _ _ own _ hclone := ⟨own, fun _ _ => rfl, hclone.of_frame h.envs.frame⟩
  dagCache_eq := h.dagCache

theorem OwnStep.refl (s : GenState) : OwnStep e s s := .of_quiet (.refl s)

theorem OwnStep.trans (h : OwnStep e s s') (h' : OwnStep e s' s'') : OwnStep e s s'' where
  toLooseStep := h.toLooseStep.trans h'.toLooseStep
  clone s₀ base own he hclone := by
    obtain ⟨own', hown', hclone'⟩ := h.clone s₀ base own he hclone
    obtain ⟨own'', hown'', hclone''⟩ := h'.clone s₀ base own' he hclone'
    exact ⟨own'', fun key hkey => (hown'' key hkey).trans (hown' key hkey), hclone''⟩
  dagCache_eq := h'.dagCache_eq.trans h.dagCache_eq

theorem OwnStep.assign (s : GenState) {key : List UInt8} (hkey : key ∉ watched) (items : List (List UInt8)) :
    OwnStep e s { s with envs := s.envs.assign e key items } where
  length := (EnvState.length_envs_assign s.envs e key items).ge
  grows _ hle hgrows := hgrows.assign hle key items
  lists i l hl := ⟨l, EnvState.getElem?_of_isPrefix (List.prefix_append _ _) hl, List.prefix_rfl⟩
  dagCache _ _ h := h
  clone s₀ base own he hclone := by
    subst he
    refine ⟨_, fun k hk => if_neg ?_, hclone.assign key items⟩
    rintro rfl
    exact hkey hk
  dagCache_eq := rfl

/-- A computation that works in the environment `e`. -/
abbrev IsOwn (e : Nat) {α : Type} (m : Gen α) : Prop := Along (OwnStep e) m

theorem IsOwn.of_quiet (h : IsQuiet m) : IsOwn e m := fun s a s' hrun => .of_quiet (h s a s' hrun)

theorem IsOwn.pure (a : α) : IsOwn e (Pure.pure a : Gen α) := Along.pure OwnStep.refl a

theorem IsOwn.bind (hm : IsOwn e m) (hf : ∀ a, IsOwn e (f a)) : IsOwn e (m >>= f) := Along.bind OwnStep.trans hm hf

theorem own_setVar {key : List UInt8} (hkey : key ∉ watched) (hne : key ≠ []) (text : List UInt8) :
    IsOwn e (setVar e key text) := by
  refine Along.modify fun s => ?_
  rw [EnvState.set, if_neg hne]
  exact .assign s hkey _

theorem own_appendVar {key : List UInt8} (hkey : key ∉ watched) (text : List UInt8) : IsOwn e (appendVar e key text) :=
  Along.modify fun s => .assign s hkey _

theorem own_customizePdb (fuel : Nat) (decl : UnitDecl) : IsOwn e (customizePdb gen fuel e decl) := by
  refine (IsOwn.of_quiet (quiet_getVar e _ _)).bind fun pdb => ?_
  split_ifs
  · refine IsOwn.bind (.of_quiet ?_) fun linkFile => ?_
    · rw [pdbLinkFile]
      split
      · exact (quiet_interpolate fuel e _ none).bind fun _ => .pure _
      · exact .pure _
    · refine (own_setVar (by decide) (by decide) _).bind fun _ => (own_setVar (by decide) (by decide) _).bind
        fun _ => ?_
      exact (own_setVar (by decide) (by decide) _).bind fun _ => own_setVar (by decide) (by decide) _
  · exact .pure _

theorem own_setPchVars (unit : Nat) (decl : UnitDecl) (header pass source : List UInt8) :
    IsOwn e (setPchVars gen e unit decl header pass source) := by
  refine (own_setVar (by decide) (by decide) _).bind fun _ => (own_setVar (by decide) (by decide) _).bind fun _ => ?_
  refine (own_setVar (by decide) (by decide) _).bind fun _ => (own_setVar (by decide) (by decide) _).bind fun _ => ?_
  refine (own_setVar (by decide) (by decide) _).bind fun _ => (own_setVar (by decide) (by decide) _).bind fun _ => ?_
  exact (own_setVar (by decide) (by decide) _).bind fun _ => .of_quiet (quiet_addPchSource unit decl _)

theorem own_customizePch (unit : Nat) (decl : UnitDecl) : IsOwn e (customizePch gen e unit decl) := by
  rw [customizePch]
  split
  · exact .pure _
  · refine (IsOwn.of_quiet (quiet_getVar e _ _)).bind fun supported => ?_
    split_ifs
    · refine (IsOwn.of_quiet (quiet_resolvePass _)).bind fun pass => ?_
      split
      · exact Along.fail _
      · exact Along.fail _
      · exact Along.fail _
      · exact own_setPchVars unit decl _ _ _
    · exact .pure _

theorem own_customizeEnv (fuel unit : Nat) (decl : UnitDecl) : IsOwn e (customizeEnv gen fuel e unit decl) := by
  refine (own_customizePdb fuel decl).bind fun _ => (own_customizePch unit decl).bind fun _ => ?_
  refine (IsOwn.of_quiet (quiet_hasKey e _)).bind fun moddef => ?_
  split_ifs
  · exact own_setVar (by decide) (by decide) _
  · exact .pure _

theorem own_linkShared (fuel : Nat) (decl : UnitDecl) : IsOwn e (linkShared gen fuel e decl) := by
  refine (IsOwn.of_quiet (quiet_interpolate fuel e _ none)).bind fun target => ?_
  refine (IsOwn.of_quiet (quiet_interpolate fuel e _ none)).bind fun libpfx => ?_
  refine (own_appendVar (by decide) _).bind fun _ => ?_
  split_ifs
  · exact own_appendVar (by decide) _
  · exact .pure _

theorem own_linkSharedNode (fuel : Nat) (decl : UnitDecl) (linked : Linked) (index : Nat) :
    IsOwn e (linkSharedNode gen fuel e decl linked index) := by
  refine (IsOwn.of_quiet (quiet_getNode index)).bind fun node => ?_
  split_ifs
  · exact .pure _
  · exact (own_linkShared fuel decl).bind fun _ => .pure _

theorem quiet_linkStaticNode (keyword : Keyword) (libsuffix : List UInt8) (linked : Linked) (index : Nat) :
    IsQuiet (linkStaticNode gen keyword libsuffix linked index) := (quiet_getNode index).bind fun _ => .pure _

theorem quiet_objectSuffixes (e : Nat) : IsQuiet (objectSuffixes e) := by
  refine (quiet_getVar e _ none).bind fun objectSuffix => (quiet_hasKey e _).bind fun known => ?_
  split_ifs
  · exact (quiet_getVar e _ none).bind fun _ => .pure _
  · exact .pure _

theorem quiet_linkGroupNode (suffixes : List (List UInt8)) (linked : Linked) (index : Nat) :
    IsQuiet (linkGroupNode gen suffixes linked index) := by
  refine (quiet_getNode index).bind fun node => ?_
  exact (IsQuiet.mapM (fun index => (quiet_getNode index).bind fun _ => .pure _) _).bind fun _ => .pure _

end Tundra.Nodegen
