import Tundra.Dag
import Tundra.Lib.Ring
import Mathlib.Logic.Function.Basic
import Mathlib.Tactic.Simps.Basic

/-!
# The state of a build

The node states of `NodeState.hpp`, the fields of `BuildQueue`, where each thread stands in `BuildLoop` and
where the main thread stands in `DriverBuild`. The operations here are the ones that only touch this state: the
flag setters, the condition variable, the ring and the list of parked nodes.

The model is the release build: a `CHECK` does nothing but leave a mark in `failedChecks` when its condition is
false, at the place where the source has it.
-/

namespace Tundra

/-- `BuildProgress::Enum`. -/
inductive BuildProgress
  | initial
  | blocked
  | unblocked
  | runAction
  | succeeded
  | upToDate
  | failed
  | completed
deriving DecidableEq

/-- The numbers behind the enumeration; `DriverSaveBuildState` compares them. -/
def BuildProgress.toNat : BuildProgress → Nat
  | initial => 0
  | blocked => 1
  | unblocked => 2
  | runAction => 3
  | succeeded => 100
  | upToDate => 101
  | failed => 102
  | completed => 200

/-- `NodeState`, the two bits of `m_Flags` one by one. The node data, the previous record and the pass of a node
never change and are in the table. -/
structure NodeState where
  queued : Bool
  active : Bool
  progress : BuildProgress
  buildResult : Int32
  inputSignature : HashDigest
deriving DecidableEq

structure ExecResult where
  returnCode : Int
  wasSignalled : Bool
deriving DecidableEq

/-- `BuildResult::Enum`. -/
inductive BuildResult
  | ok
  | interrupted
  | buildError
  | setupError
deriving DecidableEq

/-- Where a thread stands. `loop` and `advance` hold the lock; `checkInput`, `prepare`, `preAction`, `action`
are inside `CheckInputSignature` and `RunAction` with the lock dropped, `relock` is about to take it again at
the end of `RunAction` (with no result when the output directories could not be made). -/
inductive ThreadPc
  | start
  | loop
  | advance (node : Nat)
  | checkInput (node : Nat)
  | prepare (node : Nat)
  | preAction (node : Nat)
  | action (node : Nat)
  | relock (node : Nat) (result : Option ExecResult)
  | asleep
  | waking
  | exited
deriving DecidableEq

/-- Where the main thread stands in `DriverBuild`, outside of `BuildLoop`. -/
inductive DriverPc
  | passLoop (pass : Nat) (result : BuildResult)
  | wake (pass : Nat)
  | loop (pass : Nat)
  | readFailed (pass : Nat)
  | destroy (result : BuildResult)
  | destroyWake (result : BuildResult)
  | join (result : BuildResult)
  | done (result : BuildResult)
deriving DecidableEq

/-- The functions whose `CHECK`s are followed; the one on `m_ExpensiveRunning` is kept apart. -/
inductive Check
  | enqueue
  | parkExpensiveNode
  | unparkExpensiveNode
  | setupDependencies
  | checkInputSignature
  | advanceNode
  | nextNode
  | buildNodeRange
  | expensiveRunning
deriving DecidableEq

/-- The options `DriverBuild` puts into `BuildQueueConfig`. -/
structure Config where
  continueOnError : Bool
  threadCount : Nat
  maxExpensiveCount : Int
  threadCount_pos : 0 < threadCount
  maxExpensiveCount_pos : 0 < maxExpensiveCount

/-- `BuildQueue`, the node states, the threads, and the signal reason of `SignalHandler.cpp`.
`m_CurrentPassIndex` has no value before the first pass. The list of parked nodes has its last element first.
`signalSeen` is what `SignalGetReason` returned to `BuildQueueBuildNodeRange` when it last chose a result. -/
structure State where
  lock : Option Nat
  queue : Nat → Nat
  queueReadIndex : Nat
  queueWriteIndex : Nat
  pendingNodeCount : Int
  failedNodeCount : Int
  currentPassIndex : Option Nat
  expensiveRunning : Int
  expensiveWaitList : List Nat
  quitSignalled : Bool
  nodes : Nat → NodeState
  thread : Nat → ThreadPc
  driver : DriverPc
  signalReason : Option String
  signalSeen : Option String
  failedChecks : List Check

/-- `m_QueueCapacity`. -/
def NodeTable.queueCapacity (tbl : NodeTable) : Nat := nextPowerOfTwo (tbl.maxNodes + 1)

namespace State

@[simps] def setNode (s : State) (i : Nat) (n : NodeState) : State := { s with nodes := Function.update s.nodes i n }

@[simps] def setThread (s : State) (t : Nat) (pc : ThreadPc) :
    State := { s with thread := Function.update s.thread t pc }

@[simps] def setLock (s : State) (holder : Option Nat) : State := { s with lock := holder }

@[simps] def setDriver (s : State) (pc : DriverPc) : State := { s with driver := pc }

@[simps] def setReadIndex (s : State) (index : Nat) : State := { s with queueReadIndex := index }

@[simps] def writeSlot (s : State) (i index : Nat) : State :=
  { s with queue := Function.update s.queue s.queueWriteIndex i, queueWriteIndex := index }

def setProgress (s : State) (i : Nat) (p : BuildProgress) : State := s.setNode i { s.nodes i with progress := p }

/-- `NodeStateFlagQueued`, `NodeStateFlagUnqueued`, `NodeStateFlagActive`, `NodeStateFlagInactive`. -/
def flagQueued (s : State) (i : Nat) : State := s.setNode i { s.nodes i with queued := true }

def flagUnqueued (s : State) (i : Nat) : State := s.setNode i { s.nodes i with queued := false }

def flagActive (s : State) (i : Nat) : State := s.setNode i { s.nodes i with active := true }

def flagInactive (s : State) (i : Nat) : State := s.setNode i { s.nodes i with active := false }

/-- `CHECK`, compiled out but for the mark. -/
def check (s : State) (site : Check) (condition : Bool) : State :=
  if condition then s else { s with failedChecks := site :: s.failedChecks }

/-- `CondBroadcast`: every sleeper has to take the lock again. -/
@[simps] def condBroadcast (s : State) : State :=
  { s with thread := fun t => if s.thread t = .asleep then .waking else s.thread t }

/-- `CondSignal` wakes the chosen thread if it sleeps, and nobody if none is chosen. -/
def condSignal (s : State) (sleeper : Option Nat) : State :=
  match sleeper with
  | some t => if s.thread t = .asleep then s.setThread t .waking else s
  | none => s

def wakeWaiters (s : State) (count : Nat) (sleeper : Option Nat) : State :=
  if count > 1 then s.condBroadcast else s.condSignal sleeper

/-- `SignalSet`; the build's condition variable is registered with the signal handler for the whole build. -/
def signalSet (s : State) (reason : String) : State := { s with signalReason := some reason }.condBroadcast

def availableNodeCount (tbl : NodeTable) (s : State) : Nat :=
  (s.queueWriteIndex + 2 ^ 32 - s.queueReadIndex) % 2 ^ 32 &&& (tbl.queueCapacity - 1)

def allDependenciesReady (tbl : NodeTable) (s : State) (i : Nat) : Bool :=
  (tbl.data i).dependencies.all fun d =>
    match tbl.getStateForNode d with
    | some j => decide ((s.nodes j).progress = .completed)
    | none => false

def enqueue (tbl : NodeTable) (s : State) (i : Nat) : State :=
  let s := s.check .enqueue (allDependenciesReady tbl s i)
  let s := s.check .enqueue (!(s.nodes i).queued)
  let s := s.check .enqueue (!(s.nodes i).active)
  let s := s.check .enqueue (decide ((s.nodes i).progress ≠ .completed))
  let s := s.check .enqueue (decide (some (tbl.pass i) = s.currentPassIndex))
  let availInit := availableNodeCount tbl s
  let s := s.writeSlot i ((s.queueWriteIndex + 1) &&& (tbl.queueCapacity - 1))
  let s := s.flagQueued i
  s.check .enqueue (decide (availableNodeCount tbl s = 1 + availInit))

def parkExpensiveNode (tbl : NodeTable) (s : State) (i : Nat) : State :=
  let s := s.flagQueued i
  let s := s.check .parkExpensiveNode (decide (s.expensiveWaitList.length < tbl.queueCapacity))
  { s with expensiveWaitList := i :: s.expensiveWaitList }

def unparkExpensiveNode (tbl : NodeTable) (s : State) (sleeper : Option Nat) : State :=
  match s.expensiveWaitList with
  | [] => s
  | i :: rest =>
      let s := { s with expensiveWaitList := rest }
      let s := s.check .unparkExpensiveNode (s.nodes i).queued
      let s := s.flagUnqueued i
      let s := s.flagInactive i
      let s := enqueue tbl s i
      s.condSignal sleeper

def nextNode (tbl : NodeTable) (s : State) : Option (Nat × State) :=
  if availableNodeCount tbl s = 0 then none
  else
    let i := s.queue s.queueReadIndex
    let s := s.setReadIndex ((s.queueReadIndex + 1) &&& (tbl.queueCapacity - 1))
    let s := s.check .nextNode (s.nodes i).queued
    let s := s.check .nextNode (!(s.nodes i).active)
    let s := s.flagUnqueued i
    some (i, s.flagActive i)

end State

end Tundra
