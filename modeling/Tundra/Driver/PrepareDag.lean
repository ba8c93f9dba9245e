import Tundra.Driver.Select
import Tundra.Front.Acyclic

/-!
# The DAG of a session

`DriverPrepareDag` takes the DAG file of an earlier session if its signatures still match, and generates a new
one otherwise. The number of passes is one of the things `DriverCheckDagSignatures` looks at, but a new DAG is
only looked at in checked builds.
-/

namespace Tundra

/-! ### The source -/

/-- What `DriverPrepareDag` comes to: the program ends, it returns false, or the driver has its DAG.
`DriverInitData` returns true with a DAG only. -/
inductive PrepareDagResult where
  | croak
  | failure
  | success (dag : FrozenDag)

def FrozenDag.sortedByGuid (dag : FrozenDag) :
    Bool := (dag.nodeGuids.zip dag.nodeGuids.tail).all fun pair => ¬pair.2 < pair.1

/-- `DriverCheckDagSignatures`. The order of the guids is looked at in checked builds, where the program ends if
it is wrong. -/
def driverCheckDagSignatures (checkedBuild : Bool) (env : DagEnv) (dag : FrozenDag) : Option Bool :=
  if checkedBuild ∧ ¬dag.sortedByGuid then none
  else some (dag.passes.length ≤ kMaxPasses && dag.fileSignatures.all (fun sig => env.fileTimestamp sig.1 = sig.2) &&
    dag.globSignatures.all fun sig => env.globSignature sig.1 = sig.2)

/-- `GenerateDag`: the new file. There is none if the DAG tool gives no description or `CompileDag` turns it down. -/
def generateDag (env : DagEnv) (description : Option JsonObject) : Option (List UInt8) := do
  match compileDag env (← description) with
  | .error _ => none
  | .ok segs => segs.flush 6

/-- The part of `DriverPrepareDag` that generates the DAG, with the DAG file it leaves. -/
def regenerateDag (checkedBuild : Bool) (env : DagEnv) (description : Option JsonObject)
    (dagFile : Option (List UInt8)) :
    PrepareDagResult × Option (List UInt8) :=
  match generateDag env description with
  | none => (.failure, dagFile)
  | some image =>
      match loadDagData image with
      | none => (.failure, some image)
      | some dag =>
          -- the `CHECK` is compiled out of other builds
          if checkedBuild ∧ driverCheckDagSignatures checkedBuild env dag ≠ some true then (.croak, some image)
            else (.success dag, some image)

/-- `DriverPrepareDag`, with the DAG file it finds and the one it leaves. -/
def driverPrepareDag (checkedBuild : Bool) (env : DagEnv) (forceDagRegen : Bool) (description : Option JsonObject)
    (dagFile : Option (List UInt8)) : PrepareDagResult × Option (List UInt8) :=
  match if forceDagRegen then none else dagFile.bind loadDagData with
  | none => regenerateDag checkedBuild env description dagFile
  | some dag =>
      match driverCheckDagSignatures checkedBuild env dag with
      | none => (.croak, dagFile)
      | some true => (.success dag, dagFile)
      | some false => regenerateDag checkedBuild env description dagFile

/-! ### Sessions -/

/-- A build description as the DAG tool writes it: what is compiled of it is sane. -/
structure BuildDescription where
  doc : JsonObject
  sane : ∀ env segs image, compileDag env doc = .ok segs → segs.flush 6 = some image → SaneDocument doc

theorem sane_of_saved {passes : Nat → Front.Pass} {table : Front.TableSort passes} {host : Front.Host}
    {args : Front.SaveArgs} {nodes : List Front.Node} {doc : JsonObject}
    (hsaved : Front.saveDagData table host args nodes = some doc) (env : DagEnv) (segs : Segments)
    (image : List UInt8) (hcompile : compileDag env doc = .ok segs) (hflush : segs.flush 6 = some image) :
    SaneDocument doc :=
  (Front.saved_sane hsaved hcompile hflush).1

/-- The description `save_dag_data` writes. -/
def BuildDescription.ofSaved {passes : Nat → Front.Pass} {table : Front.TableSort passes} {host : Front.Host}
    {args : Front.SaveArgs} {nodes : List Front.Node} {doc : JsonObject}
    (hsaved : Front.saveDagData table host args nodes = some doc) : BuildDescription where
  doc := doc
  sane := sane_of_saved hsaved

/-- A run of the program as far as the DAG: the build, the files it sees, the option, and what the DAG tool
would write. -/
structure DagSession where
  checkedBuild : Bool
  env : DagEnv
  forceDagRegen : Bool
  description : Option BuildDescription

def DagSession.prepare (s : DagSession) (dagFile : Option (List UInt8)) : PrepareDagResult × Option (List UInt8) :=
  driverPrepareDag s.checkedBuild s.env s.forceDagRegen (s.description.map BuildDescription.doc) dagFile

/-- The DAG files that sessions one after the other leave. The file can also be removed. -/
inductive DagSessions : Option (List UInt8) → Prop where
  | start : DagSessions none
  | session {dagFile : Option (List UInt8)} (h : DagSessions dagFile) (s : DagSession) :
      DagSessions (s.prepare dagFile).2
  | removed {dagFile : Option (List UInt8)} (h : DagSessions dagFile) : DagSessions none

/-- The passes fit the counters of the driver, and every node is in one of them. -/
structure FrozenDag.PassesInRange (dag : FrozenDag) : Prop where
  count : dag.passes.length ≤ kMaxPasses
  index : ∀ node ∈ dag.nodes, InRange dag.passes.length node.passIndex

/-- The DAG file is taken as it is. -/
def DagSession.Accepts (s : DagSession) (dagFile : Option (List UInt8)) : Prop :=
  s.forceDagRegen = false ∧ ∃ dag, dagFile.bind loadDagData = some dag ∧
    driverCheckDagSignatures s.checkedBuild s.env dag = some true

/-- A DAG that is generated in another than a checked build has no more passes than there are counters. -/
def DagSession.FewPasses (s : DagSession) (dagFile : Option (List UInt8)) : Prop :=
  s.checkedBuild = true ∨ s.Accepts dagFile ∨ ∀ description, s.description = some description →
    generateDag s.env (some description.doc) ≠ none → (arrayOf description.doc "Passes").length ≤ kMaxPasses

variable {s : DagSession} {dagFile : Option (List UInt8)} {dag : FrozenDag} {image : List UInt8} {env : DagEnv}
  {description : BuildDescription}

theorem generateDag_some {doc : JsonObject} (h : generateDag env (some doc) = some image) :
    ∃ segs, compileDag env doc = .ok segs ∧ segs.flush 6 = some image := by
  rw [generateDag, Option.bind_eq_bind, Option.bind_some] at h
  cases hcompile : compileDag env doc with
  | error err =>
      rw [hcompile] at h
      cases h
  | ok segs =>
      rw [hcompile] at h
      exact ⟨segs, rfl, h⟩

/-- A generated file has the passes of its description, and its nodes are in them. -/
theorem BuildDescription.generated (h : generateDag env (some description.doc) = some image) :
    ∃ dag, loadDagData image = some dag ∧ dag.passes.length = (arrayOf description.doc "Passes").length ∧
      ∀ node ∈ dag.nodes, InRange dag.passes.length node.passIndex := by
  obtain ⟨segs, hcompile, hflush⟩ := generateDag_some h
  have hsane := description.sane env segs image hcompile hflush
  obtain ⟨fields, hread, rfl⟩ := compileDag_eq_ok hcompile
  obtain ⟨hload, hencodes⟩ := loadDagData_encodes env hsane hread hflush
  refine ⟨_, hload, ?_, (wellFormedDag_of_encodes hsane hencodes).passIndices⟩
  have hlength := congrArg List.length hencodes.passes
  rwa [List.length_map, List.length_map] at hlength

/-! ### What a session can do -/

def DagSession.Generates (s : DagSession) (image : List UInt8) : Prop :=
  ∃ description, s.description = some description ∧ generateDag s.env (some description.doc) = some image

theorem DagSession.generates_iff :
    s.Generates image ↔ generateDag s.env (s.description.map BuildDescription.doc) = some image := by
  rw [Generates]
  cases s.description with
  | none => simp [generateDag]
  | some description => simp

/-- A session that does not accept its file generates a new one, or fails and leaves the old one. -/
theorem DagSession.prepare_eq (s : DagSession) (dagFile : Option (List UInt8)) :
    (s.Accepts dagFile ∧ ∃ dag, dagFile.bind loadDagData = some dag ∧
    driverCheckDagSignatures s.checkedBuild s.env dag = some true ∧
        s.prepare dagFile = (.success dag, dagFile)) ∨
      (¬s.Accepts dagFile ∧ s.prepare dagFile = (.croak, dagFile) ∧ s.checkedBuild = true) ∨
      (¬s.Accepts dagFile ∧ s.prepare dagFile =
      regenerateDag s.checkedBuild s.env (s.description.map BuildDescription.doc) dagFile) := by
  rw [prepare, driverPrepareDag]
  cases hforce : s.forceDagRegen with
  | true =>
      refine .inr (.inr ⟨fun h => ?_, rfl⟩)
      rw [Accepts, hforce] at h
      exact absurd h.1 (by decide)
  | false =>
      simp only [Bool.false_eq_true, if_false]
      cases hload : dagFile.bind loadDagData with
      | none =>
          refine .inr (.inr ⟨fun h => ?_, rfl⟩)
          obtain ⟨-, dag, hdag, -⟩ := h
          rw [hload] at hdag
          cases hdag
      | some dag =>
          have haccepts : s.Accepts dagFile → driverCheckDagSignatures s.checkedBuild s.env dag = some true := by
            rintro ⟨-, dag', hdag', hcheck⟩
            obtain rfl : dag = dag' := Option.some.inj (hload.symm.trans hdag')
            exact hcheck
          cases hcheck : driverCheckDagSignatures s.checkedBuild s.env dag with
          | none =>
              refine .inr (.inl ⟨fun h => ?_, by simp only [hcheck], ?_⟩)
              · rw [hcheck] at haccepts
                cases haccepts h
              · by_contra hrelease
                rw [driverCheckDagSignatures, if_neg fun h => hrelease h.1] at hcheck
                cases hcheck
          | some matched =>
              cases matched with
              | true => exact .inl ⟨⟨hforce, dag, hload, hcheck⟩, dag, rfl, hcheck, by simp only [hcheck]⟩
              | false =>
                  refine .inr (.inr ⟨fun h => ?_, by simp only [hcheck]⟩)
                  rw [hcheck] at haccepts
                  cases haccepts h

theorem regenerateDag_eq (s : DagSession) (dagFile : Option (List UInt8)) :
    ((regenerateDag s.checkedBuild s.env (s.description.map BuildDescription.doc) dagFile).2 = dagFile ∨
      ∃ image, s.Generates image ∧ (regenerateDag s.checkedBuild s.env (s.description.map BuildDescription.doc) dagFile).2 = some image) ∧
    ∀ dag, (regenerateDag s.checkedBuild s.env (s.description.map BuildDescription.doc) dagFile).1 = .success dag ↔
      (∃ image, s.Generates image ∧ loadDagData image = some dag) ∧
        (s.checkedBuild = true → driverCheckDagSignatures s.checkedBuild s.env dag = some true) := by
  simp only [DagSession.generates_iff, regenerateDag]
  cases hgenerate : generateDag s.env (s.description.map BuildDescription.doc) with
  | none => exact ⟨.inl rfl, fun dag => ⟨nofun, fun h => absurd h.1 (by simp)⟩⟩
  | some image =>
      simp only [Option.some.injEq, exists_eq_left']
      cases hload : loadDagData image with
      | none => exact ⟨.inr rfl, fun dag => ⟨nofun, fun h => absurd h.1 nofun⟩⟩
      | some dag' =>
          simp only
          split_ifs with hcheck
          · refine ⟨.inr rfl, fun dag => ⟨nofun, fun h => ?_⟩⟩
            obtain rfl : dag' = dag := Option.some.inj h.1
            exact absurd (h.2 hcheck.1) hcheck.2
          · refine ⟨.inr rfl, fun dag => ⟨fun h => ?_, fun h => ?_⟩⟩
            · obtain rfl : dag' = dag := PrepareDagResult.success.inj h
              exact ⟨rfl, fun hchecked => not_not.mp fun hne => hcheck ⟨hchecked, hne⟩⟩
            · rw [Option.some.inj h.1]

theorem DagSessions.generated (h : DagSessions dagFile) (himage : dagFile = some image) :
    ∃ s : DagSession, s.Generates image := by
  induction h generalizing image with
  | start => cases himage
  | removed _ _ => cases himage
  | @session dagFile h s ih =>
      rcases s.prepare_eq dagFile with ⟨-, dag, -, -, heq⟩ | ⟨-, heq, -⟩ | ⟨-, heq⟩
      · rw [heq] at himage
        exact ih himage
      · rw [heq] at himage
        exact ih himage
      · rw [heq] at himage
        rcases (regenerateDag_eq s dagFile).1 with hfile | ⟨image', hgenerates, hfile⟩
        · exact ih (hfile.symm.trans himage)
        · rw [hfile] at himage
          exact ⟨s, Option.some.inj himage ▸ hgenerates⟩

theorem DagSession.Generates.index (h : s.Generates image) (hload : loadDagData image = some dag) :
    ∀ node ∈ dag.nodes, InRange dag.passes.length node.passIndex := by
  obtain ⟨description, -, hgenerate⟩ := h
  obtain ⟨dag', hload', -, hindex⟩ := description.generated hgenerate
  obtain rfl : dag = dag' := Option.some.inj (hload.symm.trans hload')
  exact hindex

theorem count_of_checked {checkedBuild : Bool} (h : driverCheckDagSignatures checkedBuild env dag = some true) :
    dag.passes.length ≤ kMaxPasses := by
  rw [driverCheckDagSignatures] at h
  split_ifs at h
  have hall := Option.some.inj h
  simp only [Bool.and_eq_true, decide_eq_true_eq] at hall
  exact hall.1.1

theorem DagSession.prepare_generated (hchecked : ¬s.checkedBuild = true) (haccepts : ¬s.Accepts dagFile)
    (hgenerates : s.Generates image) (hload : loadDagData image = some dag) :
    (s.prepare dagFile).1 = .success dag := by
  rcases s.prepare_eq dagFile with ⟨h, -⟩ | ⟨-, -, h⟩ | ⟨-, heq⟩
  · exact absurd h haccepts
  · exact absurd h hchecked
  · rw [heq, (regenerateDag_eq s dagFile).2 dag]
    exact ⟨⟨image, hgenerates, hload⟩, fun h => absurd h hchecked⟩

/-- After any sessions, the passes of the DAG of a session are in range just when it has not generated too many. -/
theorem passesInRange_iff (h : DagSessions dagFile) (s : DagSession) :
    (∀ dag, (s.prepare dagFile).1 = .success dag → dag.PassesInRange) ↔ s.FewPasses dagFile := by
  constructor
  · intro hsafe
    by_cases hchecked : s.checkedBuild = true
    · exact .inl hchecked
    by_cases haccepts : s.Accepts dagFile
    · exact .inr (.inl haccepts)
    refine .inr (.inr fun description hdescription hgenerate => ?_)
    obtain ⟨image, himage⟩ := Option.ne_none_iff_exists'.mp hgenerate
    obtain ⟨dag, hload, hlength, -⟩ := description.generated himage
    have hsuccess := s.prepare_generated hchecked haccepts ⟨description, hdescription, himage⟩ hload
    exact hlength ▸ (hsafe dag hsuccess).count
  · intro hfew dag hsuccess
    rcases s.prepare_eq dagFile with ⟨-, dag', hload, hcheck, heq⟩ | ⟨-, heq, -⟩ | ⟨haccepts, heq⟩
    · rw [heq] at hsuccess
      obtain rfl : dag' = dag := PrepareDagResult.success.inj hsuccess
      obtain ⟨image, himage, hload⟩ := Option.bind_eq_some_iff.mp hload
      obtain ⟨s', hgenerates⟩ := h.generated himage
      exact ⟨count_of_checked hcheck, hgenerates.index hload⟩
    · rw [heq] at hsuccess
      cases hsuccess
    · rw [heq, (regenerateDag_eq s dagFile).2 dag] at hsuccess
      obtain ⟨⟨image, hgenerates, hload⟩, hchecks⟩ := hsuccess
      refine ⟨?_, hgenerates.index hload⟩
      rcases hfew with hchecked | haccepts' | hpasses
      · exact count_of_checked (hchecks hchecked)
      · exact absurd haccepts' haccepts
      · obtain ⟨description, hdescription, himage⟩ := hgenerates
        obtain ⟨dag', hload', hlength, -⟩ := description.generated himage
        obtain rfl : dag = dag' := Option.some.inj (hload.symm.trans hload')
        have hsome : generateDag s.env (some description.doc) ≠ none := by
          rw [himage]
          exact Option.some_ne_none image
        exact hlength ▸ hpasses description hdescription hsome

/-! ### One pass more than there are counters -/

def passesDocument (count : Nat) : JsonObject :=
  let str (s : String) : JsonValue := .string (.lit s)
  let tuple : JsonObject := [(.lit "ConfigIndex", .number 0), (.lit "VariantIndex", .number 0),
    (.lit "SubVariantIndex", .number 0)]
  [(.lit "Passes", .array (List.replicate count (str "Pass"))),
    (.lit "Nodes", .array [.object
      [(.lit "Action", str "cc"), (.lit "Annotation", str "Cc a.o"), (.lit "PassIndex", .number 0)]]),
    (.lit "Setup", .object [
      (.lit "Configs", .array [str "c"]), (.lit "Variants", .array [str "v"]), (.lit "SubVariants", .array [str "s"]),
      (.lit "BuildTuples", .array
        [.object (tuple ++ [(.lit "DefaultNodes", .array [.number 0]), (.lit "AlwaysNodes", .array [])])]),
      (.lit "DefaultBuildTuple", .object tuple)])]

theorem sane_manyPasses : SaneDocument (passesDocument 65) := by decide +kernel

def manyPasses : BuildDescription := ⟨passesDocument 65, fun _ _ _ _ _ => sane_manyPasses⟩

def releaseSession (description : BuildDescription) : DagSession := ⟨false, emptyEnv, false, some description⟩

def PrepareDagResult.succeeds : PrepareDagResult → Bool
  | .success _ => true
  | _ => false

/-- Two nodes in two passes, as they are saved. -/
def savedNodes :
    Option JsonObject := Front.saveDagData (.first (Front.twoPasses 1 2) .default) .unix .plain Front.twoNodes

/-- A session after a session with the same description, which has been saved. -/
theorem passesInRange_iff_again : ∃ (doc : JsonObject) (hsaved : savedNodes = some doc) (dag : FrozenDag),
    ((releaseSession (.ofSaved hsaved)).prepare ((releaseSession (.ofSaved hsaved)).prepare none).2).1 =
    .success dag ∧ dag.PassesInRange := by
  obtain ⟨doc, hsaved⟩ : ∃ doc, savedNodes = some doc := Front.saveDagData_twoNodes (by decide +kernel) _
  have hchecks : savedNodes.all (fun doc => decide ((arrayOf doc "Passes").length ≤ kMaxPasses) &&
      (driverPrepareDag false emptyEnv false (some doc) (driverPrepareDag false emptyEnv false (some doc) none).2).1.succeeds) = true := by
    decide +kernel
  rw [hsaved, Option.all_some, Bool.and_eq_true, decide_eq_true_eq] at hchecks
  obtain ⟨hpasses, hsucceeds⟩ := hchecks
  have hfew : (releaseSession (.ofSaved hsaved)).FewPasses ((releaseSession (.ofSaved hsaved)).prepare none).2 := by
    refine .inr (.inr fun description hdescription _ => ?_)
    obtain rfl := Option.some.inj hdescription
    exact hpasses
  change ((releaseSession (.ofSaved hsaved)).prepare ((releaseSession (.ofSaved hsaved)).prepare none).2).1.succeeds =
    true at hsucceeds
  cases hresult : ((releaseSession (.ofSaved hsaved)).prepare
    ((releaseSession (.ofSaved hsaved)).prepare none).2).1 with
  | success dag =>
      exact ⟨doc, hsaved, dag, hresult,
        (passesInRange_iff (.session .start _) (releaseSession (.ofSaved hsaved))).mpr hfew dag hresult⟩
  | failure => rw [hresult] at hsucceeds; cases hsucceeds
  | croak => rw [hresult] at hsucceeds; cases hsucceeds

/-- A release build goes on with a new DAG of 65 passes. -/
theorem manyPasses_accepted :
    ¬∀ dag, ((releaseSession manyPasses).prepare none).1 = .success dag → dag.PassesInRange := by
  intro hsafe
  have hsome : (generateDag emptyEnv (some manyPasses.doc)).isSome = true := by decide +kernel
  obtain ⟨image, himage⟩ := Option.isSome_iff_exists.mp hsome
  obtain ⟨dag, hload, hlength, -⟩ := manyPasses.generated himage
  have haccepts : ¬(releaseSession manyPasses).Accepts none := by
    rintro ⟨-, dag, hdag, -⟩
    cases hdag
  have hsuccess := (releaseSession manyPasses).prepare_generated Bool.false_ne_true haccepts ⟨manyPasses, rfl, himage⟩
    hload
  have hcount := (hsafe dag hsuccess).count
  rw [hlength] at hcount
  exact absurd hcount (by decide)

end Tundra
