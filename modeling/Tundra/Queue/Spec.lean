import Tundra.Queue.Step

/-!
# What the build queue is for

The abstract machine behind the build queue. The ring is a list, the checks are gone, sleeping and waking
threads are all idle, and a step says directly what happens to a node: it leaves the ring, waits for its
dependencies, is parked, comes back, completes and lets its waiters into the ring.

`Queue.Refine` shows that every step of the source's machine is a step of this one, so what holds along the runs
of this machine holds along the runs of the code.
-/

namespace Tundra

def ThreadPc.node? : ThreadPc → Option Nat
  | .advance i | .checkInput i | .prepare i | .preAction i | .action i | .relock i _ => some i
  | .start | .loop | .asleep | .waking | .exited => none

/-- The thread holds `m_Lock`. -/
def ThreadPc.holdsLock : ThreadPc → Bool
  | .loop | .advance _ => true
  | _ => false

/-- The thread is inside `RunAction`, past the limit test and not yet back in `AdvanceNode`. -/
def ThreadPc.running? : ThreadPc → Option Nat
  | .prepare i | .preAction i | .action i | .relock i _ => some i
  | _ => none

/-- Forget whether an idle thread sleeps. -/
def ThreadPc.quiet : ThreadPc → ThreadPc
  | .asleep | .waking => .start
  | pc => pc

theorem ThreadPc.quiet_eq {pc q : ThreadPc} (h : pc.quiet = q) (hq : q ≠ .start) : pc = q := by
  cases pc <;> simp_all [ThreadPc.quiet]

namespace Spec

/-- The state of the abstract machine; the fields it shares with the source's machine keep their names. -/
structure State where
  lock : Option Nat
  ring : List Nat
  pendingNodeCount : Int
  failedNodeCount : Int
  currentPassIndex : Option Nat
  expensiveRunning : Int
  expensiveWaitList : List Nat
  quitSignalled : Bool
  nodes : Nat → NodeState
  thread : Nat → ThreadPc
  driver : DriverPc
  signalReason : Option String
  signalSeen : Option String

namespace State

@[simps] def setNode (a : State) (i : Nat) (n : NodeState) : State := { a with nodes := Function.update a.nodes i n }

@[simps] def setThread (a : State) (t : Nat) (pc : ThreadPc) :
    State := { a with thread := Function.update a.thread t pc }

@[simps] def setLock (a : State) (holder : Option Nat) : State := { a with lock := holder }

@[simps] def setDriver (a : State) (pc : DriverPc) : State := { a with driver := pc }

/-- A node at the end of `AdvanceNode`. -/
def Completed (a : State) (i : Nat) : Prop := (a.nodes i).progress = .completed

/-- All dependencies of a node are completed. -/
def Ready (tbl : NodeTable) (a : State) (i : Nat) : Prop := ∀ d ∈ tbl.deps i, a.Completed d

/-- A thread works on the node. -/
def Held (a : State) (t i : Nat) : Prop := (a.thread t).node? = some i

/-- `ShouldKeepBuilding`. -/
def Keep (cfg : Config) (a : State) (t : Nat) : Prop :=
  a.signalReason = none ∧ ¬ (0 < a.failedNodeCount ∧ cfg.continueOnError = false) ∧ a.quitSignalled = false ∧
    (t ≠ 0 ∨ 0 < a.pendingNodeCount)

/-- A node enters the ring. -/
def push (a : State) (i : Nat) : State :=
  { a with ring := a.ring ++ [i], nodes := Function.update a.nodes i { a.nodes i with queued := true } }

/-- The last parked node goes back to the ring. -/
def unpark (a : State) : State :=
  match a.expensiveWaitList with
  | [] => a
  | j :: rest =>
      { a with
        expensiveWaitList := rest
        ring := a.ring ++ [j]
        nodes := Function.update a.nodes j { a.nodes j with active := false } }

/-- An expensive node gives up its slot. -/
def release (tbl : NodeTable) (a : State) (i : Nat) : State :=
  if (tbl.data i).expensive then { a with expensiveRunning := a.expensiveRunning - 1 }.unpark else a

/-- The nodes in a list get the queued flag. -/
def queueAll (nodes : Nat → NodeState) (ws : List Nat) : Nat → NodeState :=
  fun i => if i ∈ ws then { nodes i with queued := true } else nodes i

@[simp] theorem queueAll_nil (nodes : Nat → NodeState) : queueAll nodes [] = nodes := by
  funext i
  simp [queueAll]

/-- Several nodes enter the ring. -/
def pushAll (a : State) (ws : List Nat) : State := { a with ring := a.ring ++ ws, nodes := queueAll a.nodes ws }

/-- A node that a completed dependency lets into the ring. -/
def Wakes (tbl : NodeTable) (a : State) (w : Nat) : Prop :=
  some (tbl.pass w) = a.currentPassIndex ∧ a.Ready tbl w ∧ (a.nodes w).queued = false ∧ (a.nodes w).active = false

/-- A pass begins: its nodes fill the ring. -/
def beginPass (tbl : NodeTable) (a : State) (p : Nat) : State :=
  let range := (List.range (tbl.passNodeCount p)).map (tbl.passStart p + ·)
  { a with
    ring := range
    nodes := queueAll a.nodes range
    pendingNodeCount := tbl.passNodeCount p
    failedNodeCount := 0
    currentPassIndex := some p }

/-- The progress `RunAction` returns, from where it has the lock again. -/
def exitProgress : Option ExecResult → BuildProgress
  | none => .failed
  | some r => if r.returnCode = 0 then .succeeded else .failed

theorem exitProgress_cases (result : Option ExecResult) :
    exitProgress result = .succeeded ∨ exitProgress result = .failed := by
  cases result with
  | none => exact .inr rfl
  | some r =>
      simp only [exitProgress]
      split_ifs <;> simp

/-- The signal reason after `RunAction` has looked at whether the child was signalled. -/
def childReason (reason : Option String) : Option ExecResult → Option String
  | some r => if r.wasSignalled then some "child processes signalled" else reason
  | none => reason

/-- `SignalSet` for a child that was signalled. -/
@[simps] def childSignal (a : State) (result : Option ExecResult) : State :=
  { a with signalReason := childReason a.signalReason result }

theorem childReason_ne_none {reason : Option String} (h : reason ≠ none) (result : Option ExecResult) :
    childReason reason result ≠ none := by
  unfold childReason
  split
  · split_ifs
    · simp
    · exact h
  · exact h

/-- Giving up a slot touches no more than the slot count, the parked list, the ring and active flags. -/
theorem release_eq (tbl : NodeTable) (a : State) (i : Nat) : ∃ running parked ring nodes,
    a.release tbl i = { a with expensiveRunning := running, expensiveWaitList := parked, ring := ring, nodes := nodes } ∧
      ∀ j, ∃ active, nodes j = { a.nodes j with active := active } := by
  unfold release unpark
  split_ifs
  · split
    · exact ⟨_, _, _, _, rfl, fun j => ⟨_, rfl⟩⟩
    · next j rest _ =>
      refine ⟨_, _, _, _, rfl, fun k => ?_⟩
      by_cases hk : k = j
      · subst hk
        exact ⟨false, Function.update_self ..⟩
      · exact ⟨(a.nodes k).active, Function.update_of_ne hk ..⟩
  · exact ⟨_, _, _, _, rfl, fun j => ⟨_, rfl⟩⟩

end State

/-- The steps of the main thread outside of `BuildLoop`. -/
inductive DriverStep (tbl : NodeTable) (cfg : Config) (a : State) : State → Prop
  | beginPass {p : Nat} (hpc : a.driver = .passLoop p .ok) (hp : p < tbl.passCount) (hlock : a.lock = none) :
      DriverStep tbl cfg a ((a.beginPass tbl p).setDriver (.wake p))
  | leave {p : Nat} {r : BuildResult} (hpc : a.driver = .passLoop p r) (hend : ¬ (r = .ok ∧ p < tbl.passCount)) :
      DriverStep tbl cfg a (a.setDriver (.destroy r))
  | wake {p : Nat} (hpc : a.driver = .wake p) : DriverStep tbl cfg a ((a.setThread 0 .start).setDriver (.loop p))
  | interrupted {p : Nat} (hpc : a.driver = .loop p) (hexit : a.thread 0 = .exited) (hsignal : a.signalReason ≠ none) :
      DriverStep tbl cfg a ({ a with signalSeen := a.signalReason }.setDriver (.passLoop (p + 1) .interrupted))
  | noSignal {p : Nat} (hpc : a.driver = .loop p) (hexit : a.thread 0 = .exited) (hsignal : a.signalReason = none) :
      DriverStep tbl cfg a ({ a with signalSeen := a.signalReason }.setDriver (.readFailed p))
  | readFailed {p : Nat} (hpc : a.driver = .readFailed p) :
      DriverStep tbl cfg a (a.setDriver (.passLoop (p + 1) (if a.failedNodeCount ≠ 0 then .buildError else .ok)))
  | destroy {r : BuildResult} (hpc : a.driver = .destroy r) (hlock : a.lock = none) :
      DriverStep tbl cfg a ({ a with quitSignalled := true }.setDriver (.destroyWake r))
  | destroyWake {r : BuildResult} (hpc : a.driver = .destroyWake r) : DriverStep tbl cfg a (a.setDriver (.join r))
  | join {r : BuildResult} (hpc : a.driver = .join r) (hjoin : ∀ t < cfg.threadCount, t ≠ 0 → a.thread t = .exited) :
      DriverStep tbl cfg a (a.setDriver (.done r))

/-- The steps of thread `t`. -/
inductive ThreadStep (tbl : NodeTable) (cfg : Config) (a : State) (t : Nat) (c : Choice) : State → List Event → Prop
  | idle (hpc : a.thread t = .start) : ThreadStep tbl cfg a t c a []
  | acquire (hpc : a.thread t = .start) (hlock : a.lock = none) :
      ThreadStep tbl cfg a t c ((a.setLock (some t)).setThread t .loop) []
  | sleep (hpc : a.thread t = .loop) (hkeep : a.Keep cfg t) (hring : a.ring = []) :
      ThreadStep tbl cfg a t c ((a.setLock none).setThread t .start) []
  | exit (hpc : a.thread t = .loop) (hkeep : ¬ a.Keep cfg t) :
      ThreadStep tbl cfg a t c ((a.setLock none).setThread t .exited) []
  | dequeue {i : Nat} {rest : List Nat} (hpc : a.thread t = .loop) (hkeep : a.Keep cfg t) (hring : a.ring = i :: rest) :
      ThreadStep tbl cfg a t c
        (({ a with ring := rest }.setNode i { a.nodes i with queued := false, active := true }).setThread t
          (.advance i))
        [.dequeue i]
  | block {i : Nat} (hpc : a.thread t = .advance i) (hprogress : (a.nodes i).progress = .initial)
      (hwait : ¬ a.Ready tbl i) :
      ThreadStep tbl cfg a t c ((a.setNode i { a.nodes i with progress := .blocked, active := false }).setThread t
        .loop) []
  | unblock {i : Nat} (hpc : a.thread t = .advance i)
      (hprogress : (a.nodes i).progress = .initial ∨ (a.nodes i).progress = .blocked) (hready : a.Ready tbl i) :
      ThreadStep tbl cfg a t c (a.setNode i { a.nodes i with progress := .unblocked }) []
  | enterCheck {i : Nat} (hpc : a.thread t = .advance i) (hprogress : (a.nodes i).progress = .unblocked) :
      ThreadStep tbl cfg a t c ((a.setLock none).setThread t (.checkInput i)) [.checkInput i]
  | finishCheck {i : Nat} (hpc : a.thread t = .checkInput i) (hlock : a.lock = none) :
      ThreadStep tbl cfg a t c
        (((a.setLock (some t)).setThread t (.advance i)).setNode i
          { a.nodes i with
            inputSignature := c.signature
            progress := checkInputSignature (tbl.data i) (tbl.mmapState i) c.signature c.outputsMissing })
        []
  | runEmpty {i : Nat} (hpc : a.thread t = .advance i) (hprogress : (a.nodes i).progress = .runAction)
      (hempty : (tbl.data i).action.bytes = []) :
      ThreadStep tbl cfg a t c ((a.setNode i { a.nodes i with progress := .succeeded }).release tbl i) []
  | park {i : Nat} (hpc : a.thread t = .advance i) (hprogress : (a.nodes i).progress = .runAction)
      (haction : (tbl.data i).action.bytes ≠ []) (hexp : (tbl.data i).expensive = true)
      (hlimit : a.expensiveRunning = cfg.maxExpensiveCount) :
      ThreadStep tbl cfg a t c
        (({ a with expensiveWaitList := i :: a.expensiveWaitList }.setNode i
          { a.nodes i with queued := true }).setThread t .loop)
        []
  | run {i : Nat} (hpc : a.thread t = .advance i) (hprogress : (a.nodes i).progress = .runAction)
      (haction : (tbl.data i).action.bytes ≠ [])
      (hlimit : (tbl.data i).expensive = true → a.expensiveRunning ≠ cfg.maxExpensiveCount) :
      ThreadStep tbl cfg a t c
        (({ a with expensiveRunning := a.expensiveRunning + if (tbl.data i).expensive then 1 else 0 }.setLock
          none).setThread t
          (.prepare i))
        []
  | noDirectories {i : Nat} (hpc : a.thread t = .prepare i) (hdirs : c.directoriesMade = false) :
      ThreadStep tbl cfg a t c (a.setThread t (.relock i none)) []
  | launchPre {i : Nat} (hpc : a.thread t = .prepare i) (hdirs : c.directoriesMade = true)
      (hpre : (tbl.data i).preAction.isSome = true) :
      ThreadStep tbl cfg a t c (a.setThread t (.preAction i)) [.launchPre i]
  | launch {i : Nat} (hpc : a.thread t = .prepare i) (hdirs : c.directoriesMade = true)
      (hpre : (tbl.data i).preAction.isSome = false) :
      ThreadStep tbl cfg a t c (a.setThread t (.action i)) [.launch i]
  | preFailed {i : Nat} (hpc : a.thread t = .preAction i) (hcode : c.execResult.returnCode ≠ 0) :
      ThreadStep tbl cfg a t c (a.setThread t (.relock i (some c.execResult))) []
  | launchAfterPre {i : Nat} (hpc : a.thread t = .preAction i) (hcode : c.execResult.returnCode = 0) :
      ThreadStep tbl cfg a t c (a.setThread t (.action i)) [.launch i]
  | actionDone {i : Nat} (hpc : a.thread t = .action i) :
      ThreadStep tbl cfg a t c (a.setThread t (.relock i (some c.execResult))) []
  | finishAction {i : Nat} {result : Option ExecResult} (hpc : a.thread t = .relock i result) (hlock : a.lock = none) :
      ThreadStep tbl cfg a t c
        (((((a.childSignal result).setLock (some t)).setThread t (.advance i)).setNode i
          { a.nodes i with progress := State.exitProgress result }).release tbl i)
        []
  | succeed {i : Nat} (hpc : a.thread t = .advance i)
      (hprogress : (a.nodes i).progress = .succeeded ∨ (a.nodes i).progress = .upToDate) :
      ThreadStep tbl cfg a t c (a.setNode i { a.nodes i with buildResult := 0, progress := .completed }) []
  | fail {i : Nat} (hpc : a.thread t = .advance i) (hprogress : (a.nodes i).progress = .failed) :
      ThreadStep tbl cfg a t c
        ({ a with failedNodeCount := a.failedNodeCount + 1 }.setNode i
          { a.nodes i with buildResult := 1, progress := .completed })
        []
  | complete {i : Nat} {ws : List Nat} (hpc : a.thread t = .advance i) (hprogress : (a.nodes i).progress = .completed)
      (hnodup : ws.Nodup)
      (hws : ∀ w, w ∈ ws ↔ w ∈ tbl.waiters i ∧ a.Wakes tbl w) :
      ThreadStep tbl cfg a t c
        (({ a with pendingNodeCount := a.pendingNodeCount - 1 }.pushAll ws).setThread t .loop) []

inductive Step (tbl : NodeTable) (cfg : Config) (a : State) : Action → State → List Event → Prop
  | thread {t : Nat} {c : Choice} {a' : State} {es : List Event} (ht : t < cfg.threadCount)
      (hstep : ThreadStep tbl cfg a t c a' es) : Step tbl cfg a (.thread t c) a' es
  | signal (reason : String) : Step tbl cfg a (.signal reason) { a with signalReason := some reason } []
  | driver {a' : State} (hstep : DriverStep tbl cfg a a') : Step tbl cfg a .driver a' []

end Spec

/-- The abstract state behind a state of the source's machine. -/
def State.spec (tbl : NodeTable) (s : State) : Spec.State where
  lock := s.lock
  ring := Ring.contents s.queue tbl.queueCapacity s.queueReadIndex s.queueWriteIndex
  pendingNodeCount := s.pendingNodeCount
  failedNodeCount := s.failedNodeCount
  currentPassIndex := s.currentPassIndex
  expensiveRunning := s.expensiveRunning
  expensiveWaitList := s.expensiveWaitList
  quitSignalled := s.quitSignalled
  nodes := s.nodes
  thread := fun t => (s.thread t).quiet
  driver := s.driver
  signalReason := s.signalReason
  signalSeen := s.signalSeen

end Tundra
