import Tundra.Lua.UnitFrame

/-!
# Which units leave the configuration alone

`get_dag` is followed down to the units it reaches. The variable lists of the environments that were there are
as they were if, and only if, no unit that is generated on the way writes to a list that its environment has
inherited.
-/

namespace Tundra.Nodegen

variable {gen : Generator} {s s' : GenState} {unit : Nat} {id : List UInt8}

/-- Nothing is generated for a unit that has a node, or that is filtered out. -/
theorem Safe.of_not_generates (h : ¬ Generates gen s unit id) : Safe gen s unit id := by
  intro q hpath hgen
  rcases hpath.cases_head with rfl | ⟨r, hrequest, -⟩
  · exact absurd hgen h
  · cases hrequest <;> contradiction

theorem Result.of_quiet (hstep : QuietStep s s') (h : ¬ Generates gen s unit id) : Result gen unit id s s' where
  grows := hstep.envs.frame.grows
  cache := fun u i hsome => by
    rw [hstep.dagCache]
    exact hsome
  outcome := by
    refine .inl ⟨.of_not_generates h, hstep.envs.frame, fun u i hsome => .inl ?_⟩
    rw [hstep.dagCache] at hsome
    exact hsome

/-- The outcome for a unit that has been generated in a new clone. -/
theorem Result.of_generated
    (h : Lost gen s unit id s' ∨ ∃ p, plan gen s.envs unit = some p ∧ Finished gen s unit (allAsked gen s id p) s') :
    Result gen unit id s s' := by
  rcases h with hlost | ⟨p, hplan, hfinished⟩
  · exact ⟨hlost.grows, hlost.cache, .inr ⟨hlost.not_safe, hlost.spoilt⟩⟩
  · exact ⟨hfinished.frame.grows, hfinished.cache, .inl ⟨hfinished.safe hplan, hfinished.frame, hfinished.newSafe⟩⟩

/-- The node is remembered, which is new only for the unit itself. -/
theorem Result.remember (h : Result gen unit id s s') {dag dag' : Nat} {s'' : GenState}
    (hrun : rememberDag unit id dag s' = .ok (dag', s'')) : Result gen unit id s s'' := by
  cases hrun
  refine ⟨h.grows, fun u i hsome => ?_, ?_⟩
  · show (if u = unit ∧ i = id then some dag else s'.dagCache u i).isSome
    split_ifs
    · rfl
    · exact h.cache u i hsome
  · refine h.outcome.imp_left ?_
    rintro ⟨hsafe, hframe, hnew⟩
    refine ⟨hsafe, hframe, fun u i hsome => ?_⟩
    by_cases hunit : u = unit ∧ i = id
    · obtain ⟨rfl, rfl⟩ := hunit
      exact .inr hsafe
    · simp only [if_neg hunit] at hsome
      exact hnew u i hsome

/-- What comes of making a node, if what comes of asking for one is known. -/
theorem result_makeDag {get : Nat → Nat → Gen Nat}
    (hget : ∀ u e s dag s', gen.Valid s.envs → get u e s = .ok (dag, s') → ∃ i, buildId s.envs e = some i ∧
    Result gen u i s s')
    (hvalid : gen.Valid s.envs) {decl : UnitDecl} (hdecl : gen.units[unit]? = some decl)
    (hcache : s.dagCache unit id = none) {parentEnv : Nat} (hparent : buildId s.envs parentEnv = some id)
    {fuel dag : Nat} (hrun : makeDag gen get fuel parentEnv unit id decl s = .ok (dag, s')) :
    Result gen unit id s s' := by
  rw [makeDag] at hrun
  split_ifs at hrun with hfiltered
  · refine .of_quiet (quiet_dummyNode fuel parentEnv decl s dag s' hrun) fun hgen => ?_
    exact hgen.config decl hdecl hfiltered
  · have hgen : Generates gen s unit id := by
      refine ⟨hcache, fun decl' hdecl' => ?_⟩
      rw [hdecl, Option.some.injEq] at hdecl'
      rwa [← hdecl']
    cases hbase : gen.baseEnv decl with
    | none =>
        rw [hbase] at hrun
        cases hrun
    | some base =>
        rw [hbase] at hrun
        obtain ⟨e, s₁, hclone, hrun⟩ := Stateful.of_bind hrun
        cases hclone
        exact .of_generated (of_createUnit hget hvalid hdecl hbase hgen hparent hrun)

theorem result_getDag (fuel : Nat) :
    ∀ (unit parentEnv : Nat) (s : GenState) (dag : Nat) (s' : GenState), gen.Valid s.envs →
    getDag gen fuel unit parentEnv s = .ok (dag, s') → ∃ id, buildId s.envs parentEnv = some id ∧
    Result gen unit id s s' := by
  -- on the fuel: the units that are asked for on the way have less of it
  induction fuel with
  | zero =>
      intro unit parentEnv s dag s' _ hrun
      cases hrun
  | succ fuel ih =>
      intro unit parentEnv s dag s' hvalid hrun
      rw [getDag] at hrun
      obtain ⟨id, s₁, hid, hrun⟩ := Stateful.of_bind hrun
      obtain ⟨hs₁, hid⟩ := of_getVar hid
      rw [Option.or_none] at hid
      rw [hs₁] at hrun
      obtain ⟨_, _, hget, hrun⟩ := Stateful.of_bind hrun
      cases hget
      refine ⟨id, hid, ?_⟩
      cases hcache : s.dagCache unit id with
      | some dag' =>
          simp only [hcache] at hrun
          cases hrun
          refine .of_quiet (.refl s) fun hgen => ?_
          rw [hgen.dagCache] at hcache
          cases hcache
      | none =>
          cases hdecl : gen.units[unit]? with
          | none =>
              simp only [hcache, hdecl] at hrun
              cases hrun
          | some decl =>
              simp only [hcache, hdecl] at hrun
              obtain ⟨dag', s₂, hmake, hrun⟩ := Stateful.of_bind hrun
              exact (result_makeDag ih hvalid hdecl hcache hid hmake).remember hrun

/-- The environments that were there have the lists they had, and the environments of the units that are yet to
come will see what they would have seen. -/
structure Undisturbed (gen : Generator) (s s' : EnvState) : Prop where
  lists : ∀ e < s.envs.length, ∀ key, s'.getList e key = s.getList e key
  plans : ∀ unit, plan gen s' unit = plan gen s unit
  sees : ∀ unit p, plan gen s unit = some p → p.sees gen s' = p.sees gen s

theorem Undisturbed.of_frame {s s' : EnvState} (hvalid : gen.Valid s) (hframe : s.Frame s') : Undisturbed gen s s' where
  lists := fun _ he _ => hframe.getList_eq he
  plans := plan_frame hvalid hframe
  sees := fun _ _ hplan => sees_plan hvalid hframe hplan

theorem Undisturbed.not_spoilt {s s' : EnvState} (hvalid : gen.Valid s) (h : Undisturbed gen s s') :
    ¬ Spoilt gen s s' := by
  rintro ⟨decl, hdecl, base, key, items, items', hbase, hitems, hitems', hlt⟩
  rw [h.lists base (hvalid decl hdecl base hbase) key, hitems, Option.some.injEq] at hitems'
  rw [hitems'] at hlt
  exact absurd hlt (lt_irrefl _)

/-- A unit leaves the environments alone exactly if none of the units that are generated with it writes to a
list of another environment. -/
theorem getDag_undisturbed_iff {fuel unit parentEnv : Nat} {dag : Nat} (hvalid : gen.Valid s.envs)
    (hrun : getDag gen fuel unit parentEnv s = .ok (dag, s')) :
    ∃ id, buildId s.envs parentEnv = some id ∧ (Undisturbed gen s.envs s'.envs ↔ Safe gen s unit id) := by
  obtain ⟨id, hid, hresult⟩ := result_getDag fuel unit parentEnv s dag s' hvalid hrun
  refine ⟨id, hid, fun hundisturbed => ?_, fun hsafe => ?_⟩
  · rcases hresult.outcome with ⟨hsafe, -, -⟩ | ⟨-, hspoilt⟩
    · exact hsafe
    · exact absurd hspoilt (hundisturbed.not_spoilt hvalid)
  · rcases hresult.outcome with ⟨-, hframe, -⟩ | ⟨hnot, -⟩
    · exact .of_frame hvalid hframe
    · exact absurd hsafe hnot

/-! ### A program, with and without PDB files -/

/-- The path functions on names without directories. -/
def plainPath : PathFunctions where
  normalize := fun text => text
  dropSuffix := fun text => (StringBuffer.beforeLast (· = 46) text).getD text
  getExtension := fun text => text.dropWhile (· ≠ 46)
  join := fun dir text => dir ++ lit "/" ++ text
  split := fun text => ([], text)
  isAbsolute := fun text => text.head? = some 47

def compileC : ImplicitMake where
  scannerPaths := fun _ _ => some [lit "$(OBJECTDIR)"]
  data := fun _ pass file =>
    some { label := lit "Cc $(<)", pass := pass, action := some (lit "cc $(<)"), inputFiles := [file],
           outputFiles := some [lit "$(OBJECTDIR)/" ++ plainPath.dropSuffix file ++ lit ".o"] }

/-- A program with a source file, which depends on a static library with one. -/
def programGenerator : Generator where
  units := [
    { keyword := .program, name := lit "p", depends := some (.leaf (.name (lit "l"))), sources := some (.table none
      none [.file (lit "m.c")]) },
    { keyword := .staticLibrary, name := lit "l", sources := some (.table none none [.file (lit "l.c")]) }]
  unitNames := fun name => if name = lit "p" then some 0 else if name = lit "l" then some 1 else none
  passes := fun _ => false
  baseEnvs := none
  defaultSubconfig := none
  defaultEnv := 0
  veryVerbose := false
  matchesPattern := fun _ _ => true
  path := plainPath
  implicitMake := fun _ file => if plainPath.getExtension file = lit ".c" then some compileC else none
  cwd := lit "/w"

/-- A configuration that names an auxiliary file of programs, with its PDB setting. -/
def programConfig (pdb : List UInt8) : EnvState :=
  EnvState.empty.create none
    [(lit "BUILD_ID", .string (lit "id")), (lit "SEP", .string (lit "/")), (lit "NATIVE_SUFFIXES", .string (lit ".o")),
      (lit "LIBPREFIX", .string []), (lit "LIBSUFFIX", .string (lit ".a")), (lit "LIBCOM", .string (lit "ar $(@)")),
      (lit "SHLIBLINKSUFFIX", .string []), (lit "OBJECTDIR", .string (lit "o")), (lit "PROGPREFIX", .string []),
        (lit "PROGSUFFIX", .string []), (lit "PROGCOM", .string (lit "ld $(@)")),
      (lit "GENERATE_PDB", .string pdb), (lit "AUX_FILES_PROGRAM", .string (lit "$(@:B:a.ilk)"))]

def programStart (pdb : List UInt8) : GenState := ⟨programConfig pdb, [], fun _ _ => none, fun _ => [], 1, 1⟩

theorem programGenerator_valid (pdb : List UInt8) (h : 0 < (programConfig pdb).envs.length) :
    programGenerator.Valid (programConfig pdb) := by
  intro decl hdecl base hbase
  have hdefault : ∀ decl ∈ programGenerator.units, programGenerator.baseEnv decl = some 0 := by
    simp only [programGenerator, List.forall_mem_cons, List.not_mem_nil, false_imp_iff, implies_true, and_true]
    exact ⟨rfl, rfl⟩
  obtain rfl := Option.some.inj ((hdefault decl hdecl).symm.trans hbase)
  exact h

/-- Without PDB files, the program and its library leave the configuration alone. -/
theorem getDag_undisturbed_program : ∃ dag s', getDag programGenerator 60 0 0 (programStart (lit "0")) = .ok (dag, s') ∧
    s'.nodes.map DagNode.annotation = [lit "Cc m.c", lit "Cc l.c", lit "StaticLibrary o/l.a", lit "Program o/p"] ∧
    Undisturbed programGenerator (programConfig (lit "0")) s'.envs := by
  have hok : (fun r => r.2.nodes.map DagNode.annotation) <$> getDag programGenerator 60 0 0 (programStart (lit "0")) =
      .ok [lit "Cc m.c", lit "Cc l.c", lit "StaticLibrary o/l.a", lit "Program o/p"] := by
    decide +kernel
  obtain ⟨⟨dag, s'⟩, hrun, hnodes⟩ := Outcome.map_eq_ok.mp hok
  obtain ⟨id, -, hiff⟩ := getDag_undisturbed_iff (programGenerator_valid (lit "0") (by decide +kernel)) hrun
  have hundisturbed : ∀ unit < 2, disturbs programGenerator (programConfig (lit "0")) unit = false := by decide +kernel
  refine ⟨dag, s', hrun, hnodes, hiff.mpr fun q _ _ => ?_⟩
  obtain ⟨unit, _⟩ := q
  rcases Nat.lt_or_ge unit 2 with hlt | hge
  · exact hundisturbed unit hlt
  · have hnone : programGenerator.units[unit]? = none := List.getElem?_eq_none hge
    rw [disturbs, plan, hnone]
    rfl

/-- With PDB files, the list `AUX_FILES_PROGRAM` of the configuration grows. -/
theorem getDag_disturbs_configuration : programGenerator.Valid (programConfig (lit "1")) ∧
    (programConfig (lit "1")).getList 0 (lit "AUX_FILES_PROGRAM") = some [lit "$(@:B:a.ilk)"] ∧
    ∃ dag s', getDag programGenerator 60 0 0 (programStart (lit "1")) = .ok (dag, s') ∧
      s'.envs.getList 0 (lit "AUX_FILES_PROGRAM") = some
      [lit "$(@:B:a.ilk)", lit "$(_PDB_LINK_FILE)", lit "$(_PDB_CC_FILE)"] ∧
      ¬ Undisturbed programGenerator (programConfig (lit "1")) s'.envs := by
  have hlt : 0 < (programConfig (lit "1")).envs.length := by decide +kernel
  have hbefore : (programConfig (lit "1")).getList 0 (lit "AUX_FILES_PROGRAM") = some [lit "$(@:B:a.ilk)"] := by
    decide +kernel
  have hok : (fun r => r.2.envs.getList 0 (lit "AUX_FILES_PROGRAM")) <$>
    getDag programGenerator 60 0 0 (programStart (lit "1")) =
      .ok (some [lit "$(@:B:a.ilk)", lit "$(_PDB_LINK_FILE)", lit "$(_PDB_CC_FILE)"]) := by decide +kernel
  obtain ⟨⟨dag, s'⟩, hrun, hafter⟩ := Outcome.map_eq_ok.mp hok
  refine ⟨programGenerator_valid _ hlt, hbefore, dag, s', hrun, hafter, fun h => ?_⟩
  have hsame := h.lists 0 hlt (lit "AUX_FILES_PROGRAM")
  rw [hafter, hbefore] at hsame
  exact absurd hsame (by decide)

end Tundra.Nodegen
