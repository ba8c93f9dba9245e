import Tundra.Lua.UnitPlan

/-!
# Generating a unit leaves other environments alone

While a unit is generated, either everything that was there is framed, or a list of a configuration's
environment has grown, which no later step undoes. The first is the case if none of the units that are asked for
on the way writes to a list of another environment, and the second if one does.
-/

namespace Tundra.Nodegen

open Stateful (Along Triple UpTo Loss)

/-- A list of an environment that is cloned has grown. -/
def Spoilt (gen : Generator) (s s' : EnvState) : Prop :=
  ∃ decl ∈ gen.units, ∃ base key items items', gen.baseEnv decl = some base ∧ s.getList base key = some items ∧
    s'.getList base key = some items' ∧ items.length < items'.length

/-- What comes of asking for a unit. -/
structure Result (gen : Generator) (unit : Nat) (id : List UInt8) (s s' : GenState) : Prop where
  grows : s.envs.Grows s'.envs
  cache : CacheGrows s s'
  outcome : (Safe gen s unit id ∧ s.envs.Frame s'.envs ∧ NewSafe gen s s') ∨
    (¬ Safe gen s unit id ∧ Spoilt gen s.envs s'.envs)

/-- While a unit is generated: its environment, and the units that have been asked for and are safe. -/
structure Sound (gen : Generator) (s₀ : GenState) (base : Nat) (own : List UInt8 → Option (List (List UInt8)))
    (done : Set (Nat × List UInt8)) (s : GenState) : Prop where
  clone : s₀.envs.Clone base own s.envs
  cache : CacheGrows s₀ s
  newSafe : NewSafe gen s₀ s
  done : ∀ q ∈ done, Safe gen s₀ q.1 q.2

/-- A unit that is not safe has spoilt a list. -/
structure Lost (gen : Generator) (s₀ : GenState) (unit : Nat) (id : List UInt8) (s : GenState) : Prop where
  valid : gen.Valid s₀.envs
  grows : s₀.envs.Grows s.envs
  cache : CacheGrows s₀ s
  spoilt : Spoilt gen s₀.envs s.envs
  not_safe : ¬ Safe gen s₀ unit id

variable {gen : Generator} {s₀ s s' s'' : GenState} {unit : Nat} {id : List UInt8}

/-- The steps while a unit is generated. -/
def LooseSteps (gen : Generator) (s₀ s s' : GenState) : Prop := gen.Valid s.envs → LooseStep s₀.envs.envs.length s s'

theorem LooseSteps.refl (s : GenState) : LooseSteps gen s₀ s s := fun _ => .refl _ s

theorem LooseSteps.trans (h : LooseSteps gen s₀ s s') (h' : LooseSteps gen s₀ s' s'') : LooseSteps gen s₀ s s'' :=
  fun hvalid => (h hvalid).trans (h' (hvalid.mono (h hvalid).length))

theorem Spoilt.later (h : Spoilt gen s₀.envs s.envs) (hvalid : gen.Valid s₀.envs) (hgrows : s₀.envs.Grows s.envs)
    (hgrows' : s₀.envs.Grows s'.envs)
    (hlists : ∀ (i : Nat) (l : List (List UInt8)), s.envs.lists[i]? = some l → ∃ l', s'.envs.lists[i]? = some l' ∧
    l <+: l') :
    Spoilt gen s₀.envs s'.envs := by
  obtain ⟨decl, hdecl, base, key, items, items', hbase, hitems, hitems', hlt⟩ := h
  have hold := hvalid decl hdecl base hbase
  rw [EnvState.getList, hgrows.getListRef_eq hold, Option.bind_eq_some_iff] at hitems'
  obtain ⟨i, hi, hitems'⟩ := hitems'
  obtain ⟨items'', hitems'', hle⟩ := hlists i items' hitems'
  refine ⟨decl, hdecl, base, key, items, items'', hbase, hitems, ?_, lt_of_lt_of_le hlt hle.length_le⟩
  rw [EnvState.getList, hgrows'.getListRef_eq hold, hi]
  exact hitems''

theorem Lost.stable (h : Lost gen s₀ unit id s) (hsteps : LooseSteps gen s₀ s s') : Lost gen s₀ unit id s' := by
  have hstep := hsteps (h.valid.mono h.grows.length_le)
  have hgrows := hstep.grows s₀.envs le_rfl h.grows
  exact ⟨h.valid, hgrows, fun u i hsome => hstep.dagCache u i (h.cache u i hsome),
    h.spoilt.later h.valid h.grows hgrows hstep.lists, h.not_safe⟩

/-- What is lost when a unit is generated that is not safe. -/
def loss (gen : Generator) (s₀ : GenState) (unit : Nat) (id : List UInt8) : Loss GenState where
  Loose := LooseSteps gen s₀
  Lost := Lost gen s₀ unit id
  refl := LooseSteps.refl
  trans := LooseSteps.trans
  stable := Lost.stable

/-! ### The steps of a unit -/

/-- The unit's environment, whose watched variables are as they were when it was configured. -/
def Held (gen : Generator) (s₀ : GenState) (p : Plan) (done : Set (Nat × List UInt8)) (s : GenState) : Prop :=
  ∃ own, (∀ key ∈ watched, own key = p.own gen s₀.envs key) ∧ Sound gen s₀ p.base own done s

variable {p : Plan} {done : Set (Nat × List UInt8)}

theorem Sound.own {base : Nat} {own : List UInt8 → Option (List (List UInt8))} (h : Sound gen s₀ base own done s)
    (hstep : OwnStep s₀.envs.envs.length s s') :
    ∃ own', (∀ key ∈ watched, own' key = own key) ∧ Sound gen s₀ base own' done s' := by
  obtain ⟨own', hown', hclone⟩ := hstep.clone s₀.envs base own rfl h.clone
  refine ⟨own', hown', hclone, fun u i hsome => hstep.dagCache u i (h.cache u i hsome), fun u i hsome => ?_, h.done⟩
  rw [hstep.dagCache_eq] at hsome
  exact h.newSafe u i hsome

theorem Held.own (h : Held gen s₀ p done s) (hstep : OwnStep s₀.envs.envs.length s s') : Held gen s₀ p done s' := by
  obtain ⟨own, hown, hsound⟩ := h
  obtain ⟨own', hown', hsound'⟩ := hsound.own hstep
  exact ⟨own', fun key hkey => (hown' key hkey).trans (hown key hkey), hsound'⟩

theorem Held.getList_eq (h : Held gen s₀ p done s) {key : List UInt8} (hkey : key ∈ watched) :
    s.envs.getList s₀.envs.envs.length key = p.sees gen s₀.envs key := by
  obtain ⟨own, hown, hsound⟩ := h
  rw [hsound.clone.getList_eq, hown key hkey]
  rfl

theorem Held.mono {done' : Set (Nat × List UInt8)} (h : Held gen s₀ p done s) (hdone : done' ⊆ done) :
    Held gen s₀ p done' s := by
  obtain ⟨own, hown, hsound⟩ := h
  exact ⟨own, hown, hsound.clone, hsound.cache, hsound.newSafe, fun q hq => hsound.done q (hdone hq)⟩

theorem upTo_own {α : Type} {m : Gen α} (h : IsOwn s₀.envs.envs.length m) :
    UpTo (loss gen s₀ unit id) (Held gen s₀ p done) m fun _ => Held gen s₀ p done :=
  UpTo.of_along h (fun _ _ hstep _ => hstep.toLooseStep) fun _ _ hheld hstep => hheld.own hstep

theorem upTo_quiet {α : Type} {m : Gen α} (h : IsQuiet m) :
    UpTo (loss gen s₀ unit id) (Held gen s₀ p done) m fun _ => Held gen s₀ p done :=
  upTo_own (.of_quiet h)

theorem upTo_getVar {key : List UInt8} (hkey : key ∈ watched) (default : Option (List UInt8)) :
    UpTo (loss gen s₀ unit id) (Held gen s₀ p done) (getVar s₀.envs.envs.length key default)
      fun text s => Held gen s₀ p done s ∧ ((p.sees gen s₀.envs key).map concat).or default = some text := by
  refine ⟨fun s text s' hrun _ => (OwnStep.of_quiet (quiet_getVar _ key default s text s' hrun)).toLooseStep,
    fun s text s' hheld hrun => ?_⟩
  obtain ⟨rfl, htext⟩ := of_getVar hrun
  rw [hheld.getList_eq hkey] at htext
  exact .inr ⟨hheld, htext⟩

theorem along_quiet {α : Type} {m : Gen α} (h : IsQuiet m) : Along (LooseSteps gen s₀) m :=
  fun s a s' hrun _ => (OwnStep.of_quiet (h s a s' hrun)).toLooseStep

def asked (units : List Nat) (i : List UInt8) : Set (Nat × List UInt8) := {q | q.1 ∈ units ∧ q.2 = i}

/-! ### Sources -/

section Sources

variable {get : Nat → Nat → Gen Nat} {e : Nat}

mutual

theorem along_resolveSource (hunit : ∀ u, Along (LooseSteps gen s₀) (get u e)) (ignored : List (List UInt8))
    (baseDir : Option (List UInt8)) :
    ∀ tree, Along (LooseSteps gen s₀) (resolveSource gen get e ignored baseDir tree)
  | .file _ => Along.pure LooseSteps.refl _
  | .unit index => Along.bind LooseSteps.trans (hunit index) fun _ => Along.pure LooseSteps.refl _
  | .node _ => Along.pure LooseSteps.refl _
  | .table _ sourceDir items =>
      Along.bind LooseSteps.trans (Along.get LooseSteps.refl)
        fun _ => along_resolveSources hunit _ (sourceDir.or baseDir) items

theorem along_resolveSources (hunit : ∀ u, Along (LooseSteps gen s₀) (get u e)) (ignored : List (List UInt8))
    (baseDir : Option (List UInt8)) :
    ∀ items, Along (LooseSteps gen s₀) (resolveSources gen get e ignored baseDir items)
  | [] => Along.pure LooseSteps.refl _
  | item :: items =>
      Along.bind LooseSteps.trans (along_resolveSource hunit ignored baseDir item) fun _ =>
        Along.bind LooseSteps.trans (along_resolveSources hunit ignored baseDir items)
          fun _ => Along.pure LooseSteps.refl _

end

mutual

/-- The units among the sources are asked for, if asking for one keeps what holds of the unit's environment. -/
theorem upTo_resolveSource
    (hunit : ∀ u done, Requests gen s₀ (unit, id) (u, p.ownId gen s₀.envs) →
    UpTo (loss gen s₀ unit id) (Held gen s₀ p done) (get u s₀.envs.envs.length) fun _ => Held gen s₀ p (insert (u, p.ownId gen s₀.envs) done))
    (ignored : List (List UInt8)) (baseDir : Option (List UInt8)) (done : Set (Nat × List UInt8)) :
    ∀ tree, (∀ u ∈ unitsIn tree, Requests gen s₀ (unit, id) (u, p.ownId gen s₀.envs)) →
      UpTo (loss gen s₀ unit id) (Held gen s₀ p done) (resolveSource gen get s₀.envs.envs.length ignored baseDir tree)
        fun _ => Held gen s₀ p (done ∪ asked (unitsIn tree) (p.ownId gen s₀.envs))
  | .file _, _ => UpTo.pure fun _ h => h.mono (by simp [unitsIn, asked])
  | .unit index, hrequests => by
      refine UpTo.bind (hunit index done (hrequests index (by simp [unitsIn]))) fun _ => UpTo.pure fun _ h => h.mono ?_
      rintro q (hq | ⟨hq, hi⟩)
      · exact .inr hq
      · exact .inl (Prod.ext (by simpa [unitsIn] using hq) hi)
  | .node _, _ => UpTo.pure fun _ h => h.mono (by simp [unitsIn, asked])
  | .table _ sourceDir items, hrequests =>
      UpTo.bind (upTo_quiet IsQuiet.get)
        fun _ => upTo_resolveSources hunit _ (sourceDir.or baseDir) done items hrequests

theorem upTo_resolveSources
    (hunit : ∀ u done, Requests gen s₀ (unit, id) (u, p.ownId gen s₀.envs) →
    UpTo (loss gen s₀ unit id) (Held gen s₀ p done) (get u s₀.envs.envs.length) fun _ => Held gen s₀ p (insert (u, p.ownId gen s₀.envs) done))
    (ignored : List (List UInt8)) (baseDir : Option (List UInt8)) (done : Set (Nat × List UInt8)) :
    ∀ items, (∀ u ∈ unitsInItems items, Requests gen s₀ (unit, id) (u, p.ownId gen s₀.envs)) →
      UpTo (loss gen s₀ unit id) (Held gen s₀ p done) (resolveSources gen get s₀.envs.envs.length ignored baseDir items)
        fun _ => Held gen s₀ p (done ∪ asked (unitsInItems items) (p.ownId gen s₀.envs))
  | [], _ => UpTo.pure fun _ h => h.mono (by simp [unitsInItems, asked])
  | item :: items, hrequests => by
      refine UpTo.bind (upTo_resolveSource hunit ignored baseDir done item
        fun u hu => hrequests u (List.mem_append_left _ hu)) fun _ => ?_
      refine UpTo.bind (upTo_resolveSources hunit ignored baseDir _ items
        fun u hu => hrequests u (List.mem_append_right _ hu)) fun _ => ?_
      refine UpTo.pure fun _ h => h.mono ?_
      rintro q (hq | ⟨hq, hi⟩)
      · exact .inl (.inl hq)
      · rcases List.mem_append.mp hq with hq | hq
        · exact .inl (.inr ⟨hq, hi⟩)
        · exact .inr ⟨hq, hi⟩

end

end Sources

section Nested

variable {get : Nat → Nat → Gen Nat}
  (hget : ∀ u e s dag s', gen.Valid s.envs → get u e s = .ok (dag, s') → ∃ i, buildId s.envs e = some i ∧
    Result gen u i s s')

include hget

theorem along_get (u e : Nat) : Along (LooseSteps gen s₀) (get u e) := by
  intro s dag s' hrun hvalid'
  obtain ⟨i, -, hresult⟩ := hget u e s dag s' hvalid' hrun
  exact .of_grows hresult.grows hresult.cache

theorem along_sourceListFor (fuel e : Nat) (decl : UnitDecl) (tree : SourceTree) (i : List UInt8) :
    Along (LooseSteps gen s₀) (sourceListFor gen get fuel e decl tree i) := by
  refine Along.bind LooseSteps.trans (Along.get LooseSteps.refl) fun _ => ?_
  refine Along.bind LooseSteps.trans (along_resolveSources (along_get hget · e) _ _ _) fun items => ?_
  refine Along.bind LooseSteps.trans (along_quiet (quiet_getListVar e _)) fun suffixes => ?_
  refine Along.bind LooseSteps.trans (along_quiet (quiet_resolvePass _)) fun pass => ?_
  refine Along.bind LooseSteps.trans (along_quiet (quiet_splitSources suffixes items)) fun result => ?_
  exact along_quiet (quiet_transformLoop fuel e pass suffixes fuel _ _)

variable (hvalid : gen.Valid s₀.envs)

include hvalid

theorem upTo_get {u e : Nat} {i : List UInt8} (hid : ∀ s, Held gen s₀ p done s → buildId s.envs e = some i)
    (hrequest : ¬ Safe gen s₀ u i → ¬ Safe gen s₀ unit id) :
    UpTo (loss gen s₀ unit id) (Held gen s₀ p done) (get u e) fun _ => Held gen s₀ p (insert (u, i) done) := by
  refine ⟨along_get hget u e, fun s dag s' hheld hrun => ?_⟩
  have hi := hid s hheld
  obtain ⟨own, hown, hsound⟩ := hheld
  have hframe := hsound.clone.frame
  obtain ⟨i', hi', hresult⟩ := hget u e s dag s' (hvalid.mono hframe.grows.length_le) hrun
  rw [hi, Option.some.injEq] at hi'
  subst hi'
  have hcache : CacheGrows s₀ s' := fun u' i' hsome => hresult.cache u' i' (hsound.cache u' i' hsome)
  rcases hresult.outcome with ⟨hsafe, hframe', hnew⟩ | ⟨hnot, hspoilt⟩
  · have hback : ∀ {u' i'}, Safe gen s u' i' → Safe gen s₀ u' i' := fun h => h.of_later hvalid hframe hsound.newSafe
    refine .inr ⟨own, hown, hsound.clone.of_frame hframe', hcache, fun u' i' hsome => ?_, fun q hq => ?_⟩
    · rcases hnew u' i' hsome with hold | hsafe'
      · exact hsound.newSafe u' i' hold
      · exact .inr (hback hsafe')
    · rcases hq with rfl | hq
      · exact hback hsafe
      · exact hsound.done q hq
  · refine .inl ⟨hvalid, hframe.grows.trans hresult.grows, hcache, ?_, hrequest fun hsafe => ?_⟩
    · obtain ⟨decl, hdecl, base, key, items, items', hbase, hitems, hitems', hlt⟩ := hspoilt
      rw [hframe.getList_eq (hvalid decl hdecl base hbase)] at hitems
      exact ⟨decl, hdecl, base, key, items, items', hbase, hitems, hitems', hlt⟩
    · exact hnot (hsafe.later hvalid hframe hsound.cache)

variable (hplan : plan gen s₀.envs unit = some p) (hgen : Generates gen s₀ unit id)

omit hget hvalid in
include hplan in
theorem map_sees_buildId : (p.sees gen s₀.envs (lit "BUILD_ID")).map concat = some (p.ownId gen s₀.envs) := by
  obtain ⟨-, -, hid, -⟩ := plan_eq_some_iff.mp hplan
  obtain ⟨items, hitems, -⟩ := Option.map_eq_some_iff.mp hid
  rw [Plan.ownId, Plan.sees, hitems]
  cases p.own gen s₀.envs (lit "BUILD_ID") <;> rfl

omit hget hvalid in
include hplan in
theorem Held.buildId_eq (h : Held gen s₀ p done s) :
    buildId s.envs s₀.envs.envs.length = some (p.ownId gen s₀.envs) := by
  rw [buildId, h.getList_eq (by decide)]
  exact map_sees_buildId hplan

omit hget hvalid in
/-- If a unit that is asked for is not safe, neither is the one that asks for it. -/
theorem not_safe_of_requests {q : Nat × List UInt8} (hrequest : Requests gen s₀ (unit, id) q)
    (h : ¬ Safe gen s₀ q.1 q.2) :
    ¬ Safe gen s₀ unit id :=
  fun hsafe => h fun r hpath hgen => hsafe r (.head hrequest hpath) hgen

include hplan

include hgen

theorem upTo_sourceList (fuel : Nat) {tree : SourceTree}
    (htree : tree ∈ p.decl.sources.toList ++ p.decl.untrackedSources.toList) (added : List (List UInt8))
    (done : Set (Nat × List UInt8)) :
    UpTo (loss gen s₀ unit id) (Held gen s₀ p done)
    (sourceList gen get fuel s₀.envs.envs.length p.decl (tree.addFiles added))
      fun _ => Held gen s₀ p (done ∪
      asked (unitsInItems (filterStructure (gen.accepts (p.ownId gen s₀.envs)) tree).items) (p.ownId gen s₀.envs)) := by
  refine (upTo_getVar (by decide) none).bind_of (along_sourceListFor hget fuel _ p.decl _) fun i hi => ?_
  rw [map_sees_buildId hplan, Option.some_or, Option.some.injEq] at hi
  subst hi
  have hunits := unitsInItems_filterStructure (gen.accepts (p.ownId gen s₀.envs)) tree added
  have hrequests : ∀ u ∈ unitsInItems (filterStructure (gen.accepts (p.ownId gen s₀.envs)) tree).items,
      Requests gen s₀ (unit, id) (u, p.ownId gen s₀.envs) :=
    fun u hu => .source hgen hplan (List.mem_flatMap.mpr ⟨tree, htree, hu⟩)
  rw [← hunits] at hrequests ⊢
  refine (UpTo.bind (upTo_quiet IsQuiet.get) fun _ => ?_).triple
  have hunit : ∀ u done, Requests gen s₀ (unit, id) (u, p.ownId gen s₀.envs) →
    UpTo (loss gen s₀ unit id) (Held gen s₀ p done)
      (get u s₀.envs.envs.length) fun _ => Held gen s₀ p (insert (u, p.ownId gen s₀.envs) done) :=
        fun u done hrequest =>
    upTo_get hget hvalid (fun s h => h.buildId_eq hplan) (not_safe_of_requests hrequest)
  refine (upTo_resolveSources hunit _ _ done _ hrequests).bind fun items => ?_
  refine (upTo_quiet (quiet_getListVar _ _)).bind fun suffixes => (upTo_quiet (quiet_resolvePass _)).bind fun pass => ?_
  exact (upTo_quiet (quiet_splitSources suffixes items)).bind
    fun result => upTo_quiet (quiet_transformLoop fuel _ pass suffixes fuel _ _)

/-- The units a list of sources names. -/
def askedBy (gen : Generator) (s₀ : GenState) (p : Plan) (tree : Option SourceTree) : Set (Nat × List UInt8) :=
  {q | ∃ t, tree = some t ∧ q ∈ asked (unitsInItems
    (filterStructure (gen.accepts (p.ownId gen s₀.envs)) t).items) (p.ownId gen s₀.envs)}

theorem upTo_optionalSourceList (fuel : Nat) {tree : Option SourceTree}
    (htree : tree.toList ⊆ p.decl.sources.toList ++ p.decl.untrackedSources.toList) (added : List (List UInt8))
    (done : Set (Nat × List UInt8)) :
    UpTo (loss gen s₀ unit id) (Held gen s₀ p done)
      (optionalSourceList gen get fuel s₀.envs.envs.length p.decl (tree.map (·.addFiles added)))
      fun _ => Held gen s₀ p (done ∪ askedBy gen s₀ p tree) := by
  cases tree with
  | none =>
      refine UpTo.pure fun _ h => h.mono ?_
      rintro q (hq | ⟨t, ht, -⟩)
      · exact hq
      · cases ht
  | some tree =>
      refine (upTo_sourceList hget hvalid hplan hgen fuel (htree (by simp)) added done).bind fun result => UpTo.pure
        fun _ h => h.mono ?_
      rintro q (hq | ⟨t, ht, hq⟩)
      · exact .inl hq
      · cases ht
        exact .inr hq

theorem upTo_createInputData (fuel : Nat) (done : Set (Nat × List UInt8)) :
    UpTo (loss gen s₀ unit id) (Held gen s₀ p done) (createInputData gen get fuel s₀.envs.envs.length unit p.decl)
      fun _ => Held gen s₀ p (done ∪ asked (p.sourceUnits gen s₀.envs) (p.ownId gen s₀.envs)) := by
  refine (upTo_quiet IsQuiet.get).bind fun s => (upTo_quiet (quiet_resolvePass _)).bind fun pass => ?_
  refine (upTo_optionalSourceList hget hvalid hplan hgen fuel (List.subset_append_left _ _) _ done).bind
    fun sources => ?_
  have huntracked := upTo_optionalSourceList hget hvalid hplan hgen fuel
    (List.subset_append_right p.decl.sources.toList _) []
    (done ∪ askedBy gen s₀ p p.decl.sources)
  have hnone : p.decl.untrackedSources.map (·.addFiles []) = p.decl.untrackedSources := by
    cases p.decl.untrackedSources with
    | none => rfl
    | some tree => cases tree <;> simp [SourceTree.addFiles]
  rw [hnone] at huntracked
  refine huntracked.bind fun untracked => UpTo.pure fun _ h => h.mono ?_
  rintro q (hq | ⟨hq, hi⟩)
  · exact .inl (.inl hq)
  · obtain ⟨tree, htree, hq⟩ := List.mem_flatMap.mp hq
    rcases List.mem_append.mp htree with htree | htree
    · exact .inl (.inr ⟨tree, Option.mem_toList.mp htree, hq, hi⟩)
    · exact .inr ⟨tree, Option.mem_toList.mp htree, hq, hi⟩

theorem upTo_inputDeps {parentEnv : Nat} (hparent : buildId s₀.envs parentEnv = some id)
    (done : Set (Nat × List UInt8)) (inputDeps : List Nat) :
    UpTo (loss gen s₀ unit id) (Held gen s₀ p done)
      (p.deps.foldlM (fun inputDeps dep => do return inputDeps ++ [← get dep parentEnv]) inputDeps)
      fun _ => Held gen s₀ p (done ∪ asked p.deps id) := by
  have hid : ∀ {done : Set (Nat × List UInt8)} s, Held gen s₀ p done s → buildId s.envs parentEnv = some id := by
    rintro done s ⟨own, -, hsound⟩
    obtain ⟨items, hitems, -⟩ := Option.map_eq_some_iff.mp hparent
    rw [buildId, hsound.clone.frame.getList_eq (EnvState.lt_of_getList hitems)]
    exact hparent
  refine (UpTo.foldlM (I := fun asked' _ => Held gen s₀ p (done ∪ asked asked' id))
    (fun before dep rest inputDeps hdeps => ?_) inputDeps).conseq
    (fun s h => h.mono (by simp [asked])) fun _ s h => h
  have hdep : dep ∈ p.deps := by rw [hdeps]; simp
  refine (upTo_get hget hvalid hid (not_safe_of_requests (.depends hgen hplan hdep))).bind fun dag => UpTo.pure
    fun s h => h.mono ?_
  rintro q (hq | ⟨hq, hi⟩)
  · exact .inr (.inl hq)
  · rcases List.mem_append.mp hq with hq | hq
    · exact .inr (.inr ⟨hq, hi⟩)
    · exact .inl (Prod.ext (List.mem_singleton.mp hq) hi)

/-- The units that are linked with are asked for in the environment that was cloned. -/
def linkedBy (gen : Generator) (p : Plan) (deps : List Nat) :
    Set (Nat × List UInt8) := {q | q.1 ∈ deps ∧ isLinked gen q.1 = true ∧ q.2 = p.baseId}

theorem upTo_linkDep (fuel : Nat) (hkeyword : p.decl.keyword ≠ .externalLibrary) (libsuffix : List UInt8)
    (linked : Linked) {dep : Nat} (hdep : dep ∈ p.deps) (done : Set (Nat × List UInt8)) :
    UpTo (loss gen s₀ unit id) (Held gen s₀ p done)
    (linkDep gen get fuel s₀.envs.envs.length p.base p.decl.keyword libsuffix linked dep)
      fun _ => Held gen s₀ p (done ∪ linkedBy gen p [dep]) := by
  have hid : ∀ s, Held gen s₀ p done s → buildId s.envs p.base = some p.baseId := by
    rintro s ⟨own, -, hsound⟩
    rw [buildId, getList_plan hvalid hsound.clone.frame hplan]
    exact (plan_eq_some_iff.mp hplan).2.2.1
  have hask : isLinked gen dep = true → UpTo (loss gen s₀ unit id) (Held gen s₀ p done) (get dep p.base)
      fun _ => Held gen s₀ p (done ∪ linkedBy gen p [dep]) := by
    intro hlinked
    refine (upTo_get hget hvalid hid (not_safe_of_requests (.links hgen hplan hkeyword hdep hlinked))).conseq
      (fun s h => h) fun _ s h => h.mono ?_
    rintro q (hq | ⟨hq, -, hi⟩)
    · exact .inr hq
    · exact .inl (Prod.ext (List.mem_singleton.mp hq) hi)
  rw [linkDep]
  cases hdecl : gen.units[dep]? with
  | none => exact UpTo.fail _
  | some decl =>
      have hnot : isLinked gen dep = false → UpTo (loss gen s₀ unit id) (Held gen s₀ p done) (pure linked : Gen Linked)
          fun _ => Held gen s₀ p (done ∪ linkedBy gen p [dep]) := by
        intro hnot
        refine UpTo.pure fun s h => h.mono ?_
        rintro q (hq | ⟨hq, hlinked, -⟩)
        · exact hq
        · rw [List.mem_singleton.mp hq, hnot] at hlinked
          cases hlinked
      dsimp only
      cases hkind : decl.keyword with
      | sharedLibrary =>
          exact (hask (by simp [isLinked, hdecl, hkind])).bind
            fun index => upTo_own (own_linkSharedNode fuel decl linked index)
      | staticLibrary =>
          exact (hask (by simp [isLinked, hdecl, hkind])).bind
            fun index => upTo_quiet (quiet_linkStaticNode _ libsuffix linked index)
      | objGroup =>
          refine (upTo_quiet (quiet_objectSuffixes _)).bind fun suffixes => ?_
          exact (hask (by simp [isLinked, hdecl, hkind])).bind
            fun index => upTo_quiet (quiet_linkGroupNode suffixes linked index)
      | object => exact hnot (by simp [isLinked, hdecl, hkind])
      | program => exact hnot (by simp [isLinked, hdecl, hkind])
      | externalLibrary => exact hnot (by simp [isLinked, hdecl, hkind])

theorem upTo_linkDeps (fuel : Nat) (hkeyword : p.decl.keyword ≠ .externalLibrary) (libsuffix : List UInt8)
    (linked : Linked) (done : Set (Nat × List UInt8)) :
    UpTo (loss gen s₀ unit id) (Held gen s₀ p done)
      (p.deps.foldlM (linkDep gen get fuel s₀.envs.envs.length p.base p.decl.keyword libsuffix) linked)
      fun _ => Held gen s₀ p (done ∪ linkedBy gen p p.deps) := by
  refine (UpTo.foldlM (I := fun before _ => Held gen s₀ p (done ∪ linkedBy gen p before))
    (fun before dep rest linked hdeps => ?_) linked).conseq
    (fun s h => h.mono (by simp [linkedBy])) fun _ s h => h
  have hdep : dep ∈ p.deps := by rw [hdeps]; simp
  refine (upTo_linkDep hget hvalid hplan hgen fuel hkeyword libsuffix linked hdep _).conseq (fun s h => h)
    fun _ s h => h.mono ?_
  rintro q (hq | ⟨hq, hlinked, hi⟩)
  · exact .inl (.inl hq)
  · rcases List.mem_append.mp hq with hq | hq
    · exact .inl (.inr ⟨hq, hlinked, hi⟩)
    · exact .inr ⟨hq, hlinked, hi⟩

end Nested

/-! ### The end of a unit -/

/-- The unit has asked for others and has not written to a list of another environment. -/
structure Finished (gen : Generator) (s₀ : GenState) (unit : Nat) (done : Set (Nat × List UInt8)) (s : GenState) :
    Prop where
  frame : s₀.envs.Frame s.envs
  cache : CacheGrows s₀ s
  newSafe : NewSafe gen s₀ s
  done : ∀ q ∈ done, Safe gen s₀ q.1 q.2
  undisturbed : disturbs gen s₀.envs unit = false

theorem Finished.mono {done' : Set (Nat × List UInt8)} (h : Finished gen s₀ unit done s) (hdone : done' ⊆ done) :
    Finished gen s₀ unit done' s :=
  ⟨h.frame, h.cache, h.newSafe, fun q hq => h.done q (hdone hq), h.undisturbed⟩

theorem Held.finished (h : Held gen s₀ p done s) (hframe : s₀.envs.Frame s'.envs) (hcache : s'.dagCache = s.dagCache)
    (hundisturbed : disturbs gen s₀.envs unit = false) : Finished gen s₀ unit done s' := by
  obtain ⟨own, -, hsound⟩ := h
  refine ⟨hframe, fun u i hsome => ?_, fun u i hsome => ?_, hsound.done, hundisturbed⟩
  · rw [hcache]
    exact hsound.cache u i hsome
  · rw [hcache] at hsome
    exact hsound.newSafe u i hsome

theorem upTo_finished_quiet {α : Type} {m : Gen α} (h : IsQuiet m) :
    UpTo (loss gen s₀ unit id) (Finished gen s₀ unit done) m fun _ => Finished gen s₀ unit done := by
  refine UpTo.of_along h (fun _ _ hstep _ => (OwnStep.of_quiet hstep).toLooseStep) fun s s' hfinished hstep => ?_
  refine ⟨hfinished.frame.quiet hstep.envs, fun u i hsome => ?_, fun u i hsome => ?_, hfinished.done,
    hfinished.undisturbed⟩
  · rw [hstep.dagCache]
    exact hfinished.cache u i hsome
  · rw [hstep.dagCache] at hsome
    exact hfinished.newSafe u i hsome

theorem along_auxOutputs (e : Nat) (keyword : Keyword) : Along (LooseSteps gen s₀) (auxOutputs e keyword) := by
  refine Along.bind LooseSteps.trans (Along.get LooseSteps.refl) fun s => ?_
  refine Along.bind LooseSteps.trans (along_quiet (quiet_getVar e _ _)) fun pdb => ?_
  intro s' files s'' hrun _
  cases hlist : s.envs.getListRef e keyword.auxFiles with
  | none =>
      rw [hlist] at hrun
      cases hrun
      exact .refl _ _
  | some list =>
      rw [hlist] at hrun
      cases hrun
      exact .of_grows (.foldl_pushList s'.envs _ _) fun _ _ h => h

theorem spoilt_of_pushList (hplan : plan gen s₀.envs unit = some p) (hframe : s₀.envs.Frame s.envs)
    {key : List UInt8} {list : Nat} (hlist : s₀.envs.getListRef p.base key = some list) {files : List (List UInt8)}
    (hfiles : files ≠ []) :
    Spoilt gen s₀.envs (files.foldl (fun envs file => envs.pushList list file) s.envs) := by
  obtain ⟨hdecl, hbase, -, -⟩ := plan_eq_some_iff.mp hplan
  obtain ⟨items, hitems⟩ : ∃ items, s₀.envs.lists[list]? = some items :=
    ⟨_, List.getElem?_eq_getElem (EnvState.getListRef_lt hlist)⟩
  have hold : s₀.envs.getList p.base key = some items := by
    rw [EnvState.getList, hlist]
    exact hitems
  refine ⟨p.decl, List.mem_of_getElem? hdecl, p.base, key, items, items ++ files, hbase, hold, ?_, ?_⟩
  · have hgrows := hframe.grows.trans (.foldl_pushList s.envs list files)
    rw [EnvState.getList, hgrows.getListRef_eq (EnvState.lt_of_getList hold), hlist]
    exact EnvState.getElem?_foldl_pushList list files (EnvState.getElem?_of_isPrefix hframe.lists hitems)
  · rw [List.length_append]
    exact Nat.lt_add_of_pos_right (List.length_pos_of_ne_nil hfiles)

/-- The PDB files are put into the unit's own list, or the unit disturbs the environment it has cloned. -/
theorem upTo_auxOutputs (hvalid : gen.Valid s₀.envs) (hplan : plan gen s₀.envs unit = some p)
    (hgen : Generates gen s₀ unit id) (hkeyword : p.decl.keyword ≠ .externalLibrary) (done : Set (Nat × List UInt8)) :
    UpTo (loss gen s₀ unit id) (Held gen s₀ p done)
    (auxOutputs s₀.envs.envs.length p.decl.keyword) fun _ => Finished gen s₀ unit done := by
  refine ⟨along_auxOutputs _ _, fun s files s' hheld hrun => ?_⟩
  obtain ⟨_, _, hget, hrun⟩ := Stateful.of_bind hrun
  cases hget
  obtain ⟨pdb, s₁, hpdb, hrun⟩ := Stateful.of_bind hrun
  obtain ⟨hs₁, hpdb⟩ := of_getVar hpdb
  rw [hs₁] at hrun
  have hpdb : p.pdb gen s₀.envs = pdb := by
    rw [hheld.getList_eq (by decide)] at hpdb
    rw [Plan.pdb]
    cases hsees : (p.sees gen s₀.envs (lit "GENERATE_PDB")).map concat with
    | none => rwa [hsees, Option.none_or, Option.some.injEq] at hpdb
    | some text => rwa [hsees, Option.some_or, Option.some.injEq] at hpdb
  have hdisturbs : disturbs gen s₀.envs unit = p.writesElsewhere gen s₀.envs := by
    rw [disturbs, hplan, Option.any_some]
  have hframe : s₀.envs.Frame s.envs := by
    obtain ⟨own, -, hsound⟩ := hheld
    exact hsound.clone.frame
  cases hlist : s.envs.getListRef s₀.envs.envs.length p.decl.keyword.auxFiles with
  | none =>
      rw [hlist] at hrun
      cases hrun
      refine .inr (hheld.finished hframe rfl ?_)
      have hsees := hheld.getList_eq (auxFiles_mem_watched p.decl.keyword)
      rw [EnvState.getList, hlist, Option.bind_none, Plan.sees, eq_comm, Option.or_eq_none_iff] at hsees
      simp [hdisturbs, Plan.writesElsewhere, hsees.2]
  | some list =>
      rw [hlist] at hrun
      cases hrun
      by_cases hzero : pdb = lit "0"
      · refine .inr (hheld.finished ?_ rfl ?_)
        · simpa [pdbFiles, hzero] using hframe
        · simp [hdisturbs, Plan.writesElsewhere, hpdb, hzero]
      · have hheld' := hheld
        obtain ⟨own, hown, hsound⟩ := hheld'
        rcases hsound.clone.getListRef_cases hlist with ⟨hsome, hnew⟩ | ⟨hnone, hbase⟩
        · refine .inr (hheld.finished (hframe.foldl_pushList hnew _) rfl ?_)
          rw [hown _ (auxFiles_mem_watched p.decl.keyword)] at hsome
          obtain ⟨items, hitems⟩ := Option.isSome_iff_exists.mp hsome
          simp [hdisturbs, Plan.writesElsewhere, hitems]
        · rw [hown _ (auxFiles_mem_watched p.decl.keyword)] at hnone
          have hfiles : pdbFiles pdb ≠ [] := by simp [pdbFiles, hzero]
          have hspoilt := spoilt_of_pushList hplan hframe hbase hfiles
          refine .inl ⟨hvalid, hframe.grows.trans (.foldl_pushList s.envs list _), hsound.cache, hspoilt,
            fun hsafe => ?_⟩
          have hfalse := hsafe (unit, id) .refl hgen
          have hlists : (s₀.envs.getList p.base p.decl.keyword.auxFiles).isSome := by
            rw [EnvState.getList, hbase]
            exact Option.isSome_iff_exists.mpr ⟨_, List.getElem?_eq_getElem (EnvState.getListRef_lt hbase)⟩
          simp [hdisturbs, Plan.writesElsewhere, hkeyword, hpdb, hzero, hnone, hlists] at hfalse

/-! ### Whole units -/

def allAsked (gen : Generator) (s₀ : GenState) (id : List UInt8) (p : Plan) : Set (Nat × List UInt8) :=
  asked (p.sourceUnits gen s₀.envs) (p.ownId gen s₀.envs) ∪ asked p.deps id ∪
    {q | p.decl.keyword ≠ .externalLibrary ∧ q ∈ linkedBy gen p p.deps}

section Unit

variable {get : Nat → Nat → Gen Nat}
  (hget : ∀ u e s dag s', gen.Valid s.envs → get u e s = .ok (dag, s') → ∃ i, buildId s.envs e = some i ∧
    Result gen u i s s')
  (hvalid : gen.Valid s₀.envs) (hplan : plan gen s₀.envs unit = some p) (hgen : Generates gen s₀ unit id)

include hget hvalid hplan hgen

theorem upTo_createDag (fuel : Nat) (data : InputData) (inputDeps : List Nat) (done : Set (Nat × List UInt8)) :
    UpTo (loss gen s₀ unit id) (Held gen s₀ p done)
    (createDag gen get fuel s₀.envs.envs.length p.base p.decl data p.deps inputDeps)
      fun _ => Finished gen s₀ unit (done ∪ {q | p.decl.keyword ≠ .externalLibrary ∧ q ∈ linkedBy gen p p.deps}) := by
  rw [createDag]
  split_ifs with hkeyword
  · have hundisturbed : disturbs gen s₀.envs unit = false := by simp [disturbs, hplan, Plan.writesElsewhere, hkeyword]
    refine (upTo_quiet (quiet_createExternalDag fuel _ p.decl data inputDeps)).conseq (fun s h => h) fun _ s h => ?_
    have hframe : s₀.envs.Frame s.envs := by
      obtain ⟨own, -, hsound⟩ := h
      exact hsound.clone.frame
    refine (h.mono ?_).finished hframe rfl hundisturbed
    rintro q (hq | ⟨hne, -⟩)
    · exact hq
    · exact absurd hkeyword hne
  · refine (upTo_quiet (quiet_getVar _ _ _)).bind fun _ => (upTo_quiet (quiet_getVar _ _ _)).bind fun libsuffix => ?_
    refine (upTo_quiet (quiet_getVar _ _ _)).bind fun _ => ?_
    refine (upTo_linkDeps hget hvalid hplan hgen fuel hkeyword libsuffix _ done).bind fun linked => ?_
    refine (upTo_auxOutputs hvalid hplan hgen hkeyword _).bind fun auxOutputFiles => ?_
    have hmono : done ∪ {q | p.decl.keyword ≠ .externalLibrary ∧ q ∈ linkedBy gen p p.deps} ⊆ done ∪
      linkedBy gen p p.deps :=
      Set.union_subset_union_right done fun q hq => hq.2
    refine UpTo.conseq (Q := fun _ => Finished gen s₀ unit (done ∪ linkedBy gen p p.deps)) ?_ (fun s h => h)
      fun _ s h => h.mono hmono
    exact (upTo_finished_quiet (quiet_hasKey _ _)).bind fun moddef => upTo_finished_quiet (quiet_makeNode fuel _ _)

theorem upTo_createNode (fuel : Nat) {parentEnv : Nat} (hparent : buildId s₀.envs parentEnv = some id) :
    UpTo (loss gen s₀ unit id) (Held gen s₀ p ∅)
    (createNode gen get fuel parentEnv s₀.envs.envs.length p.base unit p.decl p.deps)
      fun _ => Finished gen s₀ unit (allAsked gen s₀ id p) := by
  refine (upTo_own (own_customizeEnv fuel unit p.decl)).bind fun _ => ?_
  refine (upTo_createInputData hget hvalid hplan hgen fuel ∅).bind fun input => ?_
  refine (upTo_inputDeps hget hvalid hplan hgen hparent _ input.2).bind fun inputDeps => ?_
  refine (upTo_createDag hget hvalid hplan hgen fuel input.1 inputDeps _).conseq (fun s h => h) fun _ s h => ?_
  rwa [Set.empty_union] at h

end Unit

theorem clone_apply {s₀ s : EnvState} {base : Nat} {own : List UInt8 → Option (List (List UInt8))}
    (h : s₀.Clone base own s) (binding : Binding) :
    s₀.Clone base (binding.take (s₀.getList base) own) (binding.apply s₀.envs.length s) := by
  cases binding with
  | push key text =>
      have hclone := h.assign key ((s.getList s₀.envs.length key).getD [] ++ [text])
      rw [h.getList_eq] at hclone
      rw [Binding.apply, EnvState.append, h.getList_eq]
      exact hclone
  | replace key text => exact h.assign key [text]

theorem clone_foldl_apply {s₀ s : EnvState} {base : Nat} {own : List UInt8 → Option (List (List UInt8))}
    (bindings : List Binding) (h : s₀.Clone base own s) :
    s₀.Clone base (bindings.foldl (Binding.take (s₀.getList base)) own)
    (bindings.foldl (Binding.apply s₀.envs.length) s) := by
  induction bindings generalizing own s with
  | nil => exact h
  | cons binding bindings ih => exact ih (clone_apply h binding)

theorem of_resolveDependencies {e : Nat} {decl : UnitDecl} {deps : List Nat}
    (hrun : resolveDependencies gen e decl s = .ok (deps, s')) :
    s' = s ∧ ∀ i, buildId s.envs e = some i → gen.dependencies i decl = some deps := by
  rw [resolveDependencies] at hrun
  simp only [Generator.dependencies]
  cases hdepends : decl.depends with
  | none =>
      rw [hdepends] at hrun
      cases hrun
      exact ⟨rfl, fun _ _ => rfl⟩
  | some depends =>
      rw [hdepends] at hrun
      obtain ⟨i, s₁, hid, hrun⟩ := Stateful.of_bind hrun
      obtain ⟨hs₁, hid⟩ := of_getVar hid
      rw [hs₁] at hrun
      rw [Option.or_none] at hid
      cases hdeps : (flattenList (gen.accepts i) depends).mapM gen.resolveDep with
      | none =>
          simp only [hdeps] at hrun
          cases hrun
      | some deps' =>
          simp only [hdeps] at hrun
          cases hrun
          refine ⟨rfl, fun i' hi' => ?_⟩
          rw [buildId, hid, Option.some.injEq] at hi'
          rw [← hi']
          exact hdeps

section Configure

variable {base : Nat} {own : List UInt8 → Option (List (List UInt8))} (h : Sound gen s₀ base own done s)

include h

theorem sound_setVar {key text : List UInt8} (hkey : key ≠ []) (htext : text ≠ [])
    (hrun : setVar s₀.envs.envs.length key text s = .ok (⟨⟩, s')) :
    Sound gen s₀ base (fun k => if k = key then some [text] else own k) done s' := by
  cases hrun
  refine ⟨?_, h.cache, h.newSafe, h.done⟩
  have hset : s.envs.set s₀.envs.envs.length key (.string text) = s.envs.assign s₀.envs.envs.length key [text] := by
    rw [EnvState.set, if_neg hkey]
    cases text with
    | nil => exact absurd rfl htext
    | cons _ _ => rfl
  show s₀.envs.Clone base _ (s.envs.set s₀.envs.envs.length key (.string text))
  rw [hset]
  exact h.clone.assign key [text]

theorem sound_configureEnv {decl : UnitDecl} {deps : List Nat}
    (hrun : configureEnv gen s₀.envs.envs.length decl deps s = .ok (⟨⟩, s')) :
    ∃ i, buildId s.envs s₀.envs.envs.length = some i ∧
      Sound gen s₀ base ((bindings (gen.accepts i) decl.block (gen.propagated deps)).foldl
      (Binding.take (s₀.envs.getList base)) own) done s' := by
  obtain ⟨i, s₁, hid, hrun⟩ := Stateful.of_bind hrun
  obtain ⟨hs₁, hid⟩ := of_getVar hid
  rw [hs₁] at hrun
  cases hrun
  rw [Option.or_none] at hid
  exact ⟨i, hid, clone_foldl_apply _ h.clone, h.cache, h.newSafe, h.done⟩

end Configure

theorem of_createUnit {get : Nat → Nat → Gen Nat}
    (hget : ∀ u e s dag s', gen.Valid s.envs → get u e s = .ok (dag, s') → ∃ i, buildId s.envs e = some i ∧
    Result gen u i s s')
    (hvalid : gen.Valid s₀.envs) {decl : UnitDecl} (hdecl : gen.units[unit]? = some decl) {base : Nat}
    (hbase : gen.baseEnv decl = some base) (hgen : Generates gen s₀ unit id) {parentEnv : Nat}
    (hparent : buildId s₀.envs parentEnv = some id) {fuel dag : Nat}
    (hrun : createUnit gen get fuel parentEnv s₀.envs.envs.length base unit decl
    { s₀ with envs := s₀.envs.create (some base) [] } = .ok (dag, s')) :
    Lost gen s₀ unit id s' ∨ ∃ p, plan gen s₀.envs unit = some p ∧ Finished gen s₀ unit (allAsked gen s₀ id p) s' := by
  have hlt := hvalid decl (List.mem_of_getElem? hdecl) base hbase
  have hnew : s₀.envs.create (some base) [] = s₀.envs.newEnv (some base) := by
    rw [EnvState.create, if_pos ⟨fun p hp => by cases hp; exact hlt, fun a ha => by cases ha⟩]
    rfl
  have hstart : Sound gen s₀ base (fun _ => none) ∅ { s₀ with envs := s₀.envs.create (some base) [] } := by
    refine ⟨?_, fun _ _ h => h, fun _ _ h => .inl h, fun q hq => hq.elim⟩
    rw [hnew]
    exact .start hlt
  have hprefix : lit "__" ++ decl.name ≠ [] := by
    intro h
    exact absurd (List.append_eq_nil_iff.mp h).1 (by decide)
  obtain ⟨_, s₁, hset, hrun⟩ := Stateful.of_bind hrun
  have hsound := sound_setVar hstart (by decide) hprefix hset
  obtain ⟨deps, s₂, hdeps, hrun⟩ := Stateful.of_bind hrun
  obtain ⟨hs₂, hdeps⟩ := of_resolveDependencies hdeps
  rw [hs₂] at hrun
  obtain ⟨_, s₃, hconfigure, hrun⟩ := Stateful.of_bind hrun
  obtain ⟨baseId, hid, hsound'⟩ := sound_configureEnv hsound hconfigure
  have hbaseId : buildId s₀.envs base = some baseId := by
    rw [buildId, hsound.clone.getList_eq, if_neg (by decide), Option.none_or] at hid
    exact hid
  have hplan : plan gen s₀.envs unit = some ⟨decl, base, baseId, deps⟩ :=
    plan_eq_some_iff.mpr ⟨hdecl, hbase, hbaseId, hdeps baseId hid⟩
  have hheld : Held gen s₀ ⟨decl, base, baseId, deps⟩ ∅ s₃ := ⟨_, fun _ _ => rfl, hsound'⟩
  exact ((upTo_createNode hget hvalid hplan hgen fuel hparent).triple s₃ dag s' hheld hrun).imp_right
    fun hfinished => ⟨_, hplan, hfinished⟩

/-- A unit is safe if all it asks for is, and it does not itself write to a list of another environment. -/
theorem Finished.safe (hplan : plan gen s₀.envs unit = some p) (h : Finished gen s₀ unit (allAsked gen s₀ id p) s) :
    Safe gen s₀ unit id := by
  intro q hpath hgen
  rcases hpath.cases_head with rfl | ⟨r, hrequest, hrest⟩
  · exact h.undisturbed
  · refine h.done r ?_ q hrest hgen
    cases hrequest with
    | depends _ hplan' hdep =>
        rw [hplan, Option.some.injEq] at hplan'
        subst hplan'
        exact .inl (.inr ⟨hdep, rfl⟩)
    | links _ hplan' hkeyword hdep hlinked =>
        rw [hplan, Option.some.injEq] at hplan'
        subst hplan'
        exact .inr ⟨hkeyword, hdep, hlinked, rfl⟩
    | source _ hplan' hsource =>
        rw [hplan, Option.some.injEq] at hplan'
        subst hplan'
        exact .inl (.inl ⟨hsource, rfl⟩)

end Tundra.Nodegen
