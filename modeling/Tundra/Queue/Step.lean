import Tundra.Queue.State
import Tundra.Lib.Transition

/-!
# The build as a transition system

One step is one iteration of a loop of the source: of the `while` of `BuildLoop`, of the `for` around the
`switch` of `AdvanceNode`, of the pass loop of `DriverBuild`. A thread at `loop` or `advance` holds `m_Lock`,
and a step that takes the lock is refused while another thread holds it, so other threads get in exactly where
the source drops the lock: inside `CheckInputSignature`, inside `RunAction`, in `CondWait`, and outside of
`BuildLoop`. Signals arrive between any two steps, and a sleeper may wake without being signalled.

What the environment decides is in the label: the order of the threads, the sleeper `CondSignal` picks, the
signature and the missing outputs `CheckInputSignature` finds, whether the output directories could be made, and
the results of the processes.
-/

namespace Tundra

/-- The environment's part in a thread's step. A step reads the fields its place in the source calls for. -/
structure Choice where
  sleeper : Option Nat := none
  signature : HashDigest := ⟨0, 0⟩
  outputsMissing : Bool := false
  directoriesMade : Bool := true
  execResult : ExecResult := ⟨0, false⟩

inductive Action
  | thread (t : Nat) (choice : Choice)
  | signal (reason : String)
  | driver

/-- A node leaves the ring, enters `CheckInputSignature`, has its pre-action or its action launched by `RunAction`. -/
inductive Event
  | dequeue (node : Nat)
  | checkInput (node : Nat)
  | launchPre (node : Nat)
  | launch (node : Nat)
deriving DecidableEq

def outputFilesDiffer (nodeData : NodeData) (prevState : NodeStateData) : Bool :=
  if nodeData.outputFiles.length ≠ prevState.outputFiles.length then true
  else (nodeData.outputFiles.zip prevState.outputFiles).any fun (file, prev) => decide (file.filename ≠ prev)

def checkInputSignature (nodeData : NodeData) (prevState : Option NodeStateData) (signature : HashDigest)
    (outputsMissing : Bool) : BuildProgress :=
  match prevState with
  | none => .runAction
  | some prev =>
      if prev.inputSignature ≠ signature then .runAction
      else if prev.buildResult ≠ 0 then .runAction
      else if outputFilesDiffer nodeData prev then .runAction
      else if outputsMissing then .runAction
      else .upToDate

theorem checkInputSignature_cases (nodeData : NodeData) (prevState : Option NodeStateData) (signature : HashDigest)
    (outputsMissing : Bool) : checkInputSignature nodeData prevState signature outputsMissing = .runAction ∨
      checkInputSignature nodeData prevState signature outputsMissing = .upToDate := by
  unfold checkInputSignature
  split
  · exact .inl rfl
  · split_ifs <;> simp

namespace State

/-- One turn of the loop of `SetupDependencies`, with the two counters. -/
def setupDependency (tbl : NodeTable) (i : Nat) (acc : State × Nat × Nat) (depIndex : Nat) : State × Nat × Nat :=
  let (s, depWaitsNeeded, enqueueCount) := acc
  match tbl.getStateForNode depIndex with
  | none => (s.check .setupDependencies false, depWaitsNeeded, enqueueCount)
  | some d =>
      let s := s.check .setupDependencies (decide (tbl.pass d ≤ tbl.pass i))
      if (s.nodes d).progress = .completed then (s, depWaitsNeeded, enqueueCount)
      else if !(s.nodes d).queued && !(s.nodes d).active && decide ((s.nodes d).progress ≠ .blocked) then
        (enqueue tbl s d, depWaitsNeeded + 1, enqueueCount + 1)
      else (s, depWaitsNeeded + 1, enqueueCount)

def setupDependencies (tbl : NodeTable) (s : State) (i : Nat) (sleeper : Option Nat) : State × BuildProgress :=
  let (s, depWaitsNeeded, enqueueCount) := (tbl.data i).dependencies.foldl (setupDependency tbl i) (s, 0, 0)
  let s := if enqueueCount > 0 then s.wakeWaiters enqueueCount sleeper else s
  (s, if depWaitsNeeded > 0 then .blocked else .unblocked)

/-- One turn of the loop of `UnblockWaiters`. -/
def unblockWaiter (tbl : NodeTable) (acc : State × Nat) (link : Nat) : State × Nat :=
  let (s, enqueueCount) := acc
  match tbl.getStateForNode link with
  | none => (s, enqueueCount)
  | some w =>
      if some (tbl.pass w) ≠ s.currentPassIndex then (s, enqueueCount)
      else if !allDependenciesReady tbl s w then (s, enqueueCount)
      else if (s.nodes w).queued || (s.nodes w).active then (s, enqueueCount)
      else (enqueue tbl s w, enqueueCount + 1)

def unblockWaiters (tbl : NodeTable) (s : State) (i : Nat) (sleeper : Option Nat) : State :=
  let (s, enqueueCount) := (tbl.data i).backLinks.foldl (unblockWaiter tbl) (s, 0)
  if enqueueCount > 0 then s.wakeWaiters enqueueCount sleeper else s

/-- What `AdvanceNode` does after `RunAction` came back with a result. -/
def releaseExpensive (tbl : NodeTable) (s : State) (i : Nat) (sleeper : Option Nat) : State :=
  if (tbl.data i).expensive then
    let s := { s with expensiveRunning := s.expensiveRunning - 1 }
    let s := s.check .expensiveRunning (decide (s.expensiveRunning ≥ 0))
    unparkExpensiveNode tbl s sleeper
  else s

/-- The first part of `RunAction`, up to where it drops the lock, and the way `AdvanceNode` goes on when it does
not get there. -/
def runAction (tbl : NodeTable) (cfg : Config) (s : State) (t i : Nat) (sleeper : Option Nat) : State :=
  if (tbl.data i).action.bytes = [] then releaseExpensive tbl (s.setProgress i .succeeded) i sleeper
  else if (tbl.data i).expensive then
    if s.expensiveRunning = cfg.maxExpensiveCount then (parkExpensiveNode tbl s i).setThread t .loop
    else ({ s with expensiveRunning := s.expensiveRunning + 1 }.setLock none).setThread t (.prepare i)
  else (s.setLock none).setThread t (.prepare i)

/-- One turn of the `switch` of `AdvanceNode`. -/
def advanceNode (tbl : NodeTable) (cfg : Config) (s : State) (t i : Nat) (sleeper : Option Nat) : State × List Event :=
  match (s.nodes i).progress with
  | .initial =>
      let (s, progress) := setupDependencies tbl s i sleeper
      let s := s.setProgress i progress
      if progress = .blocked then ((s.flagInactive i).setThread t .loop, []) else (s, [])
  | .blocked => ((s.check .advanceNode (allDependenciesReady tbl s i)).setProgress i .unblocked, [])
  | .unblocked =>
      let s := s.check .checkInputSignature (allDependenciesReady tbl s i)
      ((s.setLock none).setThread t (.checkInput i), [.checkInput i])
  | .runAction => (runAction tbl cfg s t i sleeper, [])
  | .succeeded | .upToDate => (s.setNode i { s.nodes i with buildResult := 0, progress := .completed }, [])
  | .failed =>
      let s := { s with failedNodeCount := s.failedNodeCount + 1 }.condBroadcast
      (s.setNode i { s.nodes i with buildResult := 1, progress := .completed }, [])
  | .completed =>
      let s := { s with pendingNodeCount := s.pendingNodeCount - 1 }
      ((unblockWaiters tbl s i sleeper).condBroadcast.setThread t .loop, [])

def shouldKeepBuilding (cfg : Config) (s : State) (threadIndex : Nat) : Bool :=
  if s.signalReason.isSome then false
  else if decide (s.failedNodeCount > 0) && !cfg.continueOnError then false
  else if s.quitSignalled then false
  else if threadIndex ≠ 0 then true
  else decide (s.pendingNodeCount > 0)

/-- One turn of the `while` of `BuildLoop`, and the checks at the top of `AdvanceNode`. -/
def buildLoop (tbl : NodeTable) (cfg : Config) (s : State) (t : Nat) : State × List Event :=
  if shouldKeepBuilding cfg s t then
    match nextNode tbl s with
    | some (i, s) =>
        let s := s.check .advanceNode (decide ((s.nodes i).progress ≠ .completed))
        let s := s.check .advanceNode (s.nodes i).active
        let s := s.check .advanceNode (!(s.nodes i).queued)
        (s.setThread t (.advance i), [.dequeue i])
    | none => ((s.setLock none).setThread t .asleep, [])
  else ((s.setLock none).setThread t .exited, [])

/-- `RunAction` from where it has the lock again, and the rest of the `switch` case. -/
def finishAction (tbl : NodeTable) (s : State) (i : Nat) (result : Option ExecResult) (sleeper : Option Nat) : State :=
  match result with
  | none => releaseExpensive tbl (s.setProgress i .failed) i sleeper
  | some r =>
      let s := if r.wasSignalled then s.signalSet "child processes signalled" else s
      releaseExpensive tbl (s.setProgress i (if r.returnCode = 0 then .succeeded else .failed)) i sleeper

/-- Where `RunAction` goes when the outputs are out of the way: to the pre-action if there is one. -/
def launch (tbl : NodeTable) (s : State) (t i : Nat) : State × List Event :=
  if (tbl.data i).preAction.isSome then (s.setThread t (.preAction i), [.launchPre i])
  else (s.setThread t (.action i), [.launch i])

def threadStep (tbl : NodeTable) (cfg : Config) (s : State) (t : Nat) (c : Choice) : Option (State × List Event) :=
  match s.thread t with
  | .start | .waking => if s.lock = none then some ((s.setLock (some t)).setThread t .loop, []) else none
  | .asleep => some (s.setThread t .waking, [])
  | .exited => none
  | .loop => some (buildLoop tbl cfg s t)
  | .advance i => some (advanceNode tbl cfg s t i c.sleeper)
  | .checkInput i =>
      if s.lock = none then
        let progress := checkInputSignature (tbl.data i) (tbl.mmapState i) c.signature c.outputsMissing
        let s := s.setNode i { s.nodes i with inputSignature := c.signature, progress := progress }
        some ((s.setLock (some t)).setThread t (.advance i), [])
      else none
  | .prepare i =>
      if c.directoriesMade then some (launch tbl s t i) else some (s.setThread t (.relock i none), [])
  | .preAction i =>
      if c.execResult.returnCode = 0 then some (s.setThread t (.action i), [.launch i])
      else some (s.setThread t (.relock i (some c.execResult)), [])
  | .action i => some (s.setThread t (.relock i (some c.execResult)), [])
  | .relock i result =>
      if s.lock = none then
        some (finishAction tbl ((s.setLock (some t)).setThread t (.advance i)) i result c.sleeper, [])
      else none

/-- The loop of `BuildQueueBuildNodeRange` over the nodes of the pass. -/
def queueRange (s : State) (startIndex count : Nat) : State :=
  (List.range count).foldl (fun s i =>
    let s := s.flagQueued (startIndex + i)
    let s := s.check .buildNodeRange (decide ((s.nodes (startIndex + i)).progress = .initial))
    { s with queue := Function.update s.queue i (startIndex + i) }) s

/-- `BuildQueueBuildNodeRange` up to where it drops the lock. -/
def beginPass (tbl : NodeTable) (s : State) (startIndex count pass : Nat) : State :=
  let s := s.check .buildNodeRange (decide (startIndex + count ≤ tbl.maxNodes))
  let s := { s with currentPassIndex := some pass }
  let s := queueRange s startIndex count
  { s with pendingNodeCount := count, failedNodeCount := 0, queueWriteIndex := count, queueReadIndex := 0 }

/-- A step of the main thread in `DriverBuild`, `BuildQueueBuildNodeRange` and `BuildQueueDestroy`. -/
def driverStep (tbl : NodeTable) (cfg : Config) (s : State) : Option State :=
  match s.driver with
  | .passLoop p result =>
      if result = .ok ∧ p < tbl.passCount then
        if s.lock = none then some ((beginPass tbl s (tbl.passStart p) (tbl.passNodeCount p) p).setDriver (.wake p))
        else none
      else some (s.setDriver (.destroy result))
  | .wake p => some ((s.condBroadcast.setThread 0 .start).setDriver (.loop p))
  | .loop p =>
      if s.thread 0 = .exited then
        let s := { s with signalSeen := s.signalReason }
        if s.signalReason.isSome then some (s.setDriver (.passLoop (p + 1) .interrupted))
        else some (s.setDriver (.readFailed p))
      else none
  | .readFailed p =>
      some (s.setDriver (.passLoop (p + 1) (if s.failedNodeCount ≠ 0 then .buildError else .ok)))
  | .destroy result =>
      if s.lock = none then some ({ s with quitSignalled := true }.setDriver (.destroyWake result)) else none
  | .destroyWake result => some (s.condBroadcast.setDriver (.join result))
  | .join result =>
      if (List.range cfg.threadCount).all (fun t => decide (t = 0 ∨ s.thread t = .exited)) then
        some (s.setDriver (.done result))
      else none
  | .done _ => none

def step (tbl : NodeTable) (cfg : Config) (s : State) : Action → Option (State × List Event)
  | .thread t c => if t < cfg.threadCount then threadStep tbl cfg s t c else none
  | .signal reason => some (s.signalSet reason, [])
  | .driver => (driverStep tbl cfg s).map fun s => (s, [])

end State

/-- The node states `DriverPrepareNodes` allocates. -/
def NodeState.fresh : NodeState := ⟨false, false, .initial, 0, ⟨0, 0⟩⟩

/-- The state `BuildQueueInit` leaves behind: the workers started, the main thread in front of its pass loop. -/
def State.init (cfg : Config) : State where
  lock := none
  queue := fun _ => 0
  queueReadIndex := 0
  queueWriteIndex := 0
  pendingNodeCount := 0
  failedNodeCount := 0
  currentPassIndex := none
  expensiveRunning := 0
  expensiveWaitList := []
  quitSignalled := false
  nodes := fun _ => .fresh
  thread := fun t => if 0 < t ∧ t < cfg.threadCount then .start else .exited
  driver := .passLoop 0 .ok
  signalReason := none
  signalSeen := none
  failedChecks := []

/-- `DriverBuild` on a node table. -/
def buildSystem (tbl : NodeTable) (cfg : Config) : Transition.System State Action Event where
  init := .init cfg
  step := State.step tbl cfg

/-- A run of `DriverBuild`: any interleaving, any answers of the environment. -/
abbrev Reaches (tbl : NodeTable) (cfg : Config) (s : State) (tr : List Event) : Prop :=
  Transition.Reach (buildSystem tbl cfg) Transition.anything s tr

end Tundra
