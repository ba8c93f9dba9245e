import Tundra.Scanner.Scan
import Tundra.BinaryData
import Tundra.Hash
import Tundra.DigestCache
import Tundra.Queue.Step

/-!
# Input signatures

`FileSign.cpp` and the first part of `CheckInputSignature`: the bytes that are fed to the hash for a node. The
action comes first, then the pre-action if there is one, then the input files with their signatures and the
files they include. The environment variables of the node are not among them.
-/

namespace Tundra

/-- The part of a string from its last dot on, as `strrchr` finds it. -/
def extension (filename : CString) : Option CString :=
  if 46 ∈ filename.bytes then
    some (.ofBytes (46 :: (filename.bytes.reverse.takeWhile (· ≠ 46)).reverse))
  else none

/-- What a signature is computed from: the files, and the hashes of the extensions whose contents are digested. -/
structure SignConfig where
  fs : FileSystem
  shaDigestExtensions : List UInt32

/-- The caches `CheckInputSignature` goes through. -/
structure SignCaches where
  scanCache : ScanCache
  digestCache : DigestCache

section Sign

variable (config : SignConfig)

def computeFileSignatureSha1 (digestCache : DigestCache) (file : FileAndHash) : List UInt8 × DigestCache :=
  let info := config.fs.info file.filename
  if ¬ info.exists then (bigEndian 0xffffffffffffffff, digestCache)
  else
    match digestCache.get file.filename file.filenameHash info.timestamp with
    | (some digest, digestCache) => (digest.bytes, digestCache)
    | (none, digestCache) =>
        match config.fs.read file.filename with
        | .cannotOpen => ((CString.lit "<missing>").bytes, digestCache)
        | .readFails =>
            ((hashDigest []).bytes, digestCache.set file.filename file.filenameHash info.timestamp (hashDigest []))
        | .bytes data =>
            ((hashDigest data).bytes, digestCache.set file.filename file.filenameHash info.timestamp (hashDigest data))

def computeFileSignatureTimestamp (file : FileAndHash) : List UInt8 :=
  let info := config.fs.info file.filename
  bigEndian (if info.exists then info.timestamp else 0xffffffffffffffff)

def computeFileSignature (digestCache : DigestCache) (file : FileAndHash) : List UInt8 × DigestCache :=
  match extension file.filename with
  | some ext =>
      if djb2HashPath ext ∈ config.shaDigestExtensions then computeFileSignatureSha1 config digestCache file
      else (computeFileSignatureTimestamp config file, digestCache)
  | none => (computeFileSignatureTimestamp config file, digestCache)

def signFile (digestCache : DigestCache) (file : FileAndHash) : List (List UInt8) × DigestCache :=
  let (signature, digestCache) := computeFileSignature config digestCache file
  ([file.filename.bytes, signature], digestCache)

def signFiles : DigestCache → List FileAndHash → List (List UInt8) × DigestCache
  | digestCache, [] => ([], digestCache)
  | digestCache, file :: files =>
      let (pieces, digestCache) := signFile config digestCache file
      let (rest, digestCache) := signFiles digestCache files
      (pieces ++ rest, digestCache)

/-- The loop of `CheckInputSignature` over the input files. -/
def signInputs (fuel : Nat) (scanner : Option ScannerData) :
    SignCaches → List FileAndHash → Option (List (List UInt8) × SignCaches)
  | caches, [] => some ([], caches)
  | caches, input :: inputs =>
      let (pieces, digestCache) := signFile config caches.digestCache input
      let scanned : Option (List (List UInt8) × SignCaches) := match scanner with
        | none => some ([], { caches with digestCache := digestCache })
        | some scanner =>
            match scanImplicitDeps config.fs scanner fuel input.filename caches.scanCache with
            | .returned files scanCache =>
                let (included, digestCache) := signFiles config digestCache files
                some (included, ⟨scanCache, digestCache⟩)
            | .croaked | .outOfFuel => none
      scanned.bind fun (included, caches) =>
        (signInputs fuel scanner caches inputs).map fun (rest, caches) => (pieces ++ included ++ rest, caches)

/-- What `CheckInputSignature` feeds to the hash of a node, one piece for each call of `HashUpdate`. -/
def inputPieces (fuel : Nat) (nodeData : NodeData) (caches : SignCaches) : Option (List (List UInt8) × SignCaches) :=
  let command := [nodeData.action.bytes, separator]
  let preCommand := match nodeData.preAction with
    | some preAction => [preAction.bytes, separator]
    | none => []
  (signInputs config fuel nodeData.scanner caches nodeData.inputFiles).map
    fun (inputs, caches) => (command ++ preCommand ++ inputs, caches)

end Sign

def inputSignature (pieces : List (List UInt8)) : HashDigest := hashFinalize (pieces.foldl hashUpdate hashInit)

/-- A process that `RunAction` launches. -/
structure Launch where
  commandLine : CString
  envVars : List EnvVarData
deriving DecidableEq

/-- The processes `RunAction` launches for a node, in order, as long as each one succeeds. -/
def launches (nodeData : NodeData) : List Launch :=
  if nodeData.action.bytes = [] then []
  else (nodeData.preAction.toList ++ [nodeData.action]).map fun commandLine => ⟨commandLine, nodeData.envVars⟩

/-! ### What the stream says about the commands -/

theorem bytes_zero_inj {a b : CString} {r t : List UInt8} (h : a.bytes ++ 0 :: r = b.bytes ++ 0 :: t) :
    a = b ∧ r = t := by
  have hcut : ∀ (s : CString) (rest : List UInt8), (s.bytes ++ 0 :: rest).takeWhile (· ≠ 0) = s.bytes := by
    intro s rest
    rw [List.takeWhile_append_of_pos]
    · simp
    · intro c hc
      simp only [decide_eq_true_eq]
      rintro rfl
      exact s.noNul hc
  have hbytes : a.bytes = b.bytes := by rw [← hcut a r, ← hcut b t, h]
  obtain ⟨a, ha⟩ := a
  obtain ⟨b, hb⟩ := b
  obtain rfl : a = b := hbytes
  exact ⟨rfl, by simpa using h⟩

/-- A string in front of anything else, against one in front of its terminator. -/
theorem prefix_of_bytes_zero {a b : CString} {r t : List UInt8} (h : a.bytes ++ 0 :: r = b.bytes ++ t) :
    b.bytes <+: a.bytes := by
  rcases List.append_eq_append_iff.mp h with ⟨more, hb, -⟩ | ⟨more, ha, -⟩
  · cases more with
    | nil => exact ⟨[], by simpa using hb⟩
    | cons c more =>
        rw [hb] at h
        obtain ⟨rfl, -⟩ : c = 0 ∧ more ++ t = r := by simpa using h.symm
        exact absurd (by rw [hb]; simp) b.noNul
  · exact ⟨more, ha.symm⟩

variable {config : SignConfig} {fuel : Nat} {nodeData : NodeData} {caches caches' : SignCaches}
  {pieces : List (List UInt8)}

/-- What is fed for the inputs begins with the path of the first one. -/
theorem signInputs_cons {scanner : Option ScannerData} {input : FileAndHash} {inputs : List FileAndHash}
    (h : signInputs config fuel scanner caches (input :: inputs) = some (pieces, caches')) :
    ∃ rest, pieces.flatten = input.filename.bytes ++ rest := by
  simp only [signInputs, Option.bind_eq_some_iff, Option.map_eq_some_iff, Prod.mk.injEq] at h
  obtain ⟨included, -, rest, -, rfl, -⟩ := h
  exact ⟨_, by simp only [signFile, List.cons_append, List.nil_append, List.flatten_cons]; rfl⟩

theorem inputPieces_flatten (h : inputPieces config fuel nodeData caches = some (pieces, caches')) :
    ∃ inputs, signInputs config fuel nodeData.scanner caches nodeData.inputFiles = some (inputs, caches') ∧
      pieces.flatten = nodeData.action.bytes ++ 0 :: (match nodeData.preAction with
        | some preAction => preAction.bytes ++ 0 :: inputs.flatten
        | none => inputs.flatten) := by
  obtain ⟨⟨inputs, _⟩, hinputs, heq⟩ := Option.map_eq_some_iff.mp h
  simp only [Prod.mk.injEq] at heq
  obtain ⟨rfl, rfl⟩ := heq
  refine ⟨inputs, hinputs, ?_⟩
  cases nodeData.preAction <;> simp [separator]

/-- Only the first node has a pre-action, and it begins with the path of the second one's first input file. -/
def PreActionHidden (n₁ n₂ : NodeData) : Prop :=
  ∃ preAction first rest, n₁.preAction = some preAction ∧ n₂.preAction = none ∧ n₂.inputFiles = first :: rest ∧
    first.filename.bytes <+: preAction.bytes

/-- The same command lines are launched for both nodes, or the pre-action of one hides in the other's inputs. -/
def SameCommands (n₁ n₂ : NodeData) : Prop :=
  n₁.action = n₂.action ∧ ((launches n₁).map Launch.commandLine = (launches n₂).map Launch.commandLine ∨
    PreActionHidden n₁ n₂ ∨ PreActionHidden n₂ n₁)

theorem preActionHidden_of_bytes {n₁ n₂ : NodeData} {preAction : CString} {config₂ : SignConfig} {fuel₂ : Nat}
    {caches₂ caches₂' : SignCaches} {inputs₁ : List UInt8} {inputs₂ : List (List UInt8)}
    (hpre₁ : n₁.preAction = some preAction) (hpre₂ : n₂.preAction = none)
    (hinputs : signInputs config₂ fuel₂ n₂.scanner caches₂ n₂.inputFiles = some (inputs₂, caches₂'))
    (h : preAction.bytes ++ 0 :: inputs₁ = inputs₂.flatten) : PreActionHidden n₁ n₂ := by
  cases hfiles : n₂.inputFiles with
  | nil =>
      rw [hfiles, signInputs, Option.some.injEq, Prod.mk.injEq] at hinputs
      rw [← hinputs.1] at h
      simp at h
  | cons first rest =>
      rw [hfiles] at hinputs
      obtain ⟨more, hmore⟩ := signInputs_cons hinputs
      exact ⟨preAction, first, rest, hpre₁, hpre₂, hfiles, prefix_of_bytes_zero (h.trans hmore)⟩

/-- Nodes for which the same bytes are fed to the hash run the same commands. -/
theorem sameCommands_of_flatten {n₁ n₂ : NodeData} {config₁ config₂ : SignConfig} {fuel₁ fuel₂ : Nat}
    {caches₁ caches₂ caches₁' caches₂' : SignCaches} {pieces₁ pieces₂ : List (List UInt8)}
    (h₁ : inputPieces config₁ fuel₁ n₁ caches₁ = some (pieces₁, caches₁'))
    (h₂ : inputPieces config₂ fuel₂ n₂ caches₂ = some (pieces₂, caches₂')) (heq : pieces₁.flatten = pieces₂.flatten) :
    SameCommands n₁ n₂ := by
  obtain ⟨inputs₁, hinputs₁, hflatten₁⟩ := inputPieces_flatten h₁
  obtain ⟨inputs₂, hinputs₂, hflatten₂⟩ := inputPieces_flatten h₂
  obtain ⟨haction, hrest⟩ := bytes_zero_inj (hflatten₁.symm.trans (heq.trans hflatten₂))
  refine ⟨haction, ?_⟩
  have hlaunches : n₁.preAction = n₂.preAction →
    (launches n₁).map Launch.commandLine = (launches n₂).map Launch.commandLine := by
    intro hpre
    simp only [launches, haction, hpre]
    split_ifs <;> simp [Function.comp_def]
  cases hpre₁ : n₁.preAction with
  | none =>
      cases hpre₂ : n₂.preAction with
      | none => exact .inl (hlaunches (by rw [hpre₁, hpre₂]))
      | some preAction₂ =>
          simp only [hpre₁, hpre₂] at hrest
          exact .inr (.inr (preActionHidden_of_bytes hpre₂ hpre₁ hinputs₁ hrest.symm))
  | some preAction₁ =>
      cases hpre₂ : n₂.preAction with
      | none =>
          simp only [hpre₁, hpre₂] at hrest
          exact .inr (.inl (preActionHidden_of_bytes hpre₁ hpre₂ hinputs₂ hrest))
      | some preAction₂ =>
          simp only [hpre₁, hpre₂] at hrest
          exact .inl (hlaunches (by rw [hpre₁, hpre₂, (bytes_zero_inj hrest).1]))

/-- Two different streams with one signature. -/
def Collision (pieces₁ pieces₂ : List (List UInt8)) : Prop :=
  pieces₁.flatten ≠ pieces₂.flatten ∧ inputSignature pieces₁ = inputSignature pieces₂

theorem upToDate_signature {prev : NodeStateData} {signature : HashDigest} {outputsMissing : Bool}
    (h : checkInputSignature nodeData (some prev) signature outputsMissing = .upToDate) :
    prev.inputSignature = signature := by
  by_contra hne
  simp [checkInputSignature, hne] at h

/-- When two nodes feed the same bytes to the hash, in whatever states of the files and the caches, `RunAction`
launches the same command lines for both; so a node whose record has the signature of another one is not up to
date unless their commands are the same or the signatures collide. -/
theorem signature_covers_commands {n₁ n₂ : NodeData} {config₁ config₂ : SignConfig} {fuel₁ fuel₂ : Nat}
    {caches₁ caches₂ caches₁' caches₂' : SignCaches} {pieces₁ pieces₂ : List (List UInt8)}
    (h₁ : inputPieces config₁ fuel₁ n₁ caches₁ = some (pieces₁, caches₁'))
    (h₂ : inputPieces config₂ fuel₂ n₂ caches₂ = some (pieces₂, caches₂')) :
    (pieces₁.flatten = pieces₂.flatten → SameCommands n₁ n₂) ∧
      ∀ prev outputsMissing, prev.inputSignature = inputSignature pieces₁ →
        checkInputSignature n₂ (some prev) (inputSignature pieces₂) outputsMissing = .upToDate →
          SameCommands n₁ n₂ ∨ Collision pieces₁ pieces₂ := by
  refine ⟨sameCommands_of_flatten h₁ h₂, fun prev outputsMissing hprev huptodate => ?_⟩
  by_cases heq : pieces₁.flatten = pieces₂.flatten
  · exact .inl (sameCommands_of_flatten h₁ h₂ heq)
  · exact .inr ⟨heq, hprev.symm.trans (upToDate_signature huptodate)⟩

/-! ### Nodes that differ -/

/-- A node with a command, these environment variables and no input files. -/
def commandNode (envVars : List EnvVarData) : NodeData :=
    { NodeData.empty with action := .lit "cc", envVars := envVars }

def mtimeFiles (files : List (String × UInt64)) : FileSystem where
  stat path := match files.find? fun file => CString.lit file.1 = path with
    | some file => .found .regular file.2 1
    | none => .failed true
  read _ := .cannotOpen

def emptyCaches : SignCaches := ⟨.init none, ⟨.init, 0⟩⟩

/-- A file with a timestamp that begins with a zero byte and goes on like the name of another file. -/
def confusingFiles : SignConfig := ⟨mtimeFiles [("x", 0x0061626364656667), ("abcdefgq", 5), ("q", 5)], []⟩

/-- A node with the pre-action `x`. -/
def preActionNode : NodeData :=
  { NodeData.empty with action := .lit "cc", preAction := some (.lit "x"), inputFiles := [⟨.lit "abcdefgq", djb2HashPath (.lit "abcdefgq")⟩] }

/-- With other environment variables the commands are the same, and the node is up to date. -/
theorem signature_covers_commands_env :
    ∃ pieces caches, inputPieces confusingFiles 1 preActionNode emptyCaches = some (pieces, caches) ∧
    inputPieces confusingFiles 1 { preActionNode with envVars := [⟨.lit "LANG", .lit "C"⟩] } emptyCaches = some
    (pieces, caches) ∧
    SameCommands preActionNode { preActionNode with envVars := [⟨.lit "LANG", .lit "C"⟩] } := by
  obtain ⟨⟨pieces, caches⟩, h⟩ :=
    Option.isSome_iff_exists.mp
      (by decide +kernel : (inputPieces confusingFiles 1 preActionNode emptyCaches).isSome = true)
  have henv : inputPieces confusingFiles 1 { preActionNode with envVars := [⟨.lit "LANG", .lit "C"⟩] } emptyCaches =
    some (pieces, caches) := h
  exact ⟨pieces, caches, h, henv, (signature_covers_commands h henv).1 rfl⟩

/-- A node with the input file `x`. -/
def inputNode : NodeData :=
  { NodeData.empty with action := .lit "cc", inputFiles := [⟨.lit "x", djb2HashPath (.lit "x")⟩,
    ⟨.lit "q", djb2HashPath (.lit "q")⟩] }

/-- The environment variables are not fed to the hash, and a pre-action can be taken for an input file. -/
theorem signature_misses_environment :
    (∀ config fuel caches, inputPieces config fuel (commandNode []) caches =
      inputPieces config fuel (commandNode [⟨.lit "LANG", .lit "C"⟩]) caches ∧ (inputPieces config fuel (commandNode []) caches).isSome = true) ∧
    launches (commandNode []) ≠ launches (commandNode [⟨.lit "LANG", .lit "C"⟩]) ∧
    (∃ stream, (inputPieces confusingFiles 1 preActionNode emptyCaches).map (fun result => result.1.flatten) =
    some stream ∧
      (inputPieces confusingFiles 1 inputNode emptyCaches).map (fun result => result.1.flatten) = some stream) ∧
    (launches preActionNode).map Launch.commandLine ≠ (launches inputNode).map Launch.commandLine := by
  refine ⟨fun config fuel caches => ⟨rfl, rfl⟩, by decide +kernel, ?_, by decide +kernel⟩
  have heq : (inputPieces confusingFiles 1 preActionNode emptyCaches).map (fun result => result.1.flatten) =
      (inputPieces confusingFiles 1 inputNode emptyCaches).map (fun result => result.1.flatten) ∧
      ((inputPieces confusingFiles 1 preActionNode emptyCaches).map (fun result => result.1.flatten)).isSome =
        true := by
    decide +kernel
  obtain ⟨stream, hstream⟩ := Option.isSome_iff_exists.mp heq.2
  exact ⟨stream, hstream, heq.1.symm.trans hstream⟩

end Tundra
