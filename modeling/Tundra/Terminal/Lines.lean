import Tundra.Lib.Transition
import Mathlib.Data.List.FinRange
import Mathlib.Data.List.Perm.Basic
import Mathlib.Logic.Function.Basic

/-!
# Line buffers

The output of the jobs, `TerminalIo.cpp`. One job owns the TTY and writes to it directly. The others put what
they emit into line buffers, to be written when they own the TTY themselves, and sleep on `s_CanPrint` when
there is no buffer left.

All of this happens under `s_LineLock`, apart from what the owner of the TTY writes. `emitLoop` and `jobExit`
are the parts of the two functions from where the lock is taken to where it is released or the thread goes to
sleep. What `qsort` does is a parameter, and the thread that a signal wakes up is chosen from outside.
-/

namespace Tundra.Terminal

abbrev kLineBufSize : Nat := 8192

abbrev kLineBufCount : Nat := 64

structure LineBuffer where
  jobId : Nat
  sortKey : Int32
  isStderr : Bool
  /-- The first `m_Len` bytes of `m_Data`. -/
  data : List UInt8
deriving DecidableEq

/-- A pointer to an element of `s_Linebufs`. -/
abbrev LinebufPtr := Fin kLineBufCount

/-- The variables that `s_LineLock` protects, and the threads that sleep on `s_CanPrint`. -/
structure Lines where
  /-- `s_PrintingJobIndex`, unless it is -1. -/
  printingJobIndex : Option Nat
  /-- The first `s_FreeLinebufCount` elements of `s_FreeLinebufs`. -/
  freeLinebufs : List LinebufPtr
  /-- The first `s_QueuedLinebufCount` elements of `s_QueuedLinebufs`. -/
  queuedLinebufs : List LinebufPtr
  linebufs : LinebufPtr → LineBuffer
  canPrint : List Nat

/-- What can be seen of a run: the calls, the writes, and who owns the TTY. -/
inductive TerminalEvent where
  | emit (jobId : Nat) (sortKey : Int32) (isStderr : Bool) (data : List UInt8)
  | take (jobId : Nat)
  | write (jobId : Nat) (isStderr : Bool) (data : List UInt8)
  | release (jobId : Nat)
  /-- `TerminalIoJobExit` returns. -/
  | exited (jobId : Nat)
deriving DecidableEq

/-- Where the thread of a job is when it does not hold the lock. -/
inductive Phase where
  | idle
  /-- In the `CondWait` of `TerminalIoEmit`, with what is left of the data. -/
  | emitting (sortKey : Int32) (isStderr : Bool) (data : List UInt8)
  /-- In `TerminalIoEmit` with the TTY, in front of the `write`. -/
  | printing (isStderr : Bool) (data : List UInt8)
  /-- In the `CondWait` of `TerminalIoJobExit`. -/
  | exiting
  /-- In `TerminalIoJobExit`, in front of the `CondBroadcast`. -/
  | signalling
deriving DecidableEq

abbrev Qsort := (LinebufPtr → LinebufPtr → Int32) → List LinebufPtr → List LinebufPtr

namespace Lines

variable (lines : Lines)

/-- `TerminalIoInit`. -/
def init : Lines := ⟨none, List.finRange kLineBufCount, [], fun _ => ⟨0, 0, false, []⟩, []⟩

def allocLineBuffer : Option (Option LinebufPtr × Lines) :=
  if lines.freeLinebufs.length + lines.queuedLinebufs.length = kLineBufCount then
    some (lines.freeLinebufs.getLast?, { lines with freeLinebufs := lines.freeLinebufs.dropLast })
  else none

def compareBuffers (li ri : LinebufPtr) : Int32 := (lines.linebufs li).sortKey - (lines.linebufs ri).sortKey

/-- `CondSignal`: the chosen thread wakes up, or the first one if this one does not sleep. -/
def condSignal (woken : Nat) : Lines :=
  { lines with canPrint := if woken ∈ lines.canPrint then lines.canPrint.erase woken else lines.canPrint.tail }

def condBroadcast : Lines := { lines with canPrint := [] }

def condWait (jobId : Nat) : Lines := { lines with canPrint := lines.canPrint ++ [jobId] }

/-- The queued buffers of a job, in the order of the queue. -/
def buffers (jobId : Nat) : List LinebufPtr := lines.queuedLinebufs.filter fun b => (lines.linebufs b).jobId = jobId

end Lines

/-- The loop at the end of `FlushOutputQueue`, over the queue and the free buffers. -/
def compactLoop (own : LinebufPtr → Bool) :
    Nat → Nat → List LinebufPtr → List LinebufPtr → List LinebufPtr × List LinebufPtr
  | 0, _, queued, free => (queued, free)
  | fuel + 1, i, queued, free =>
      match queued[i]? with
      | none => (queued, free)
      | some b =>
          if own b then compactLoop own fuel i ((queued.set i (queued.getLastD b)).dropLast) (free ++ [b])
          else compactLoop own fuel (i + 1) queued free

namespace Lines

variable (qsort : Qsort) (woken jobId : Nat)

def flushOutputQueue (lines : Lines) : Lines × List TerminalEvent :=
  let buffers := lines.buffers jobId
  let writes := (qsort lines.compareBuffers buffers).map
    fun b => TerminalEvent.write jobId (lines.linebufs b).isStderr (lines.linebufs b).data
  let (queued, free) := compactLoop (fun b => (lines.linebufs b).jobId = jobId) lines.queuedLinebufs.length 0
    lines.queuedLinebufs lines.freeLinebufs
  let lines := { lines with queuedLinebufs := queued, freeLinebufs := free }
  (if buffers.length = 1 then lines.condSignal woken else if buffers.length > 1 then lines.condBroadcast else lines,
    writes)

def takeTty (lines : Lines) : Lines × List TerminalEvent :=
  let (lines, writes) := { lines with printingJobIndex := some jobId }.flushOutputQueue qsort woken jobId
  (lines, .take jobId :: writes)

def queueLine (lines : Lines) (b : LinebufPtr) (line : LineBuffer) : Lines :=
  { lines with linebufs := Function.update lines.linebufs b line, queuedLinebufs := lines.queuedLinebufs ++ [b] }

/-- The job has the TTY, or can get it. -/
def ttyFor (lines : Lines) : Bool := lines.printingJobIndex = none ∨ lines.printingJobIndex = some jobId

/-- The loop of `TerminalIoEmit`. `buf` is the variable of the function, it keeps its value from one turn to the
next one. There is no result when an assertion fails; the one that there is a buffer if the job does not have
the TTY can not. -/
def emitLoop (sortKey : Int32) (isStderr : Bool) : Nat → Option LinebufPtr → List UInt8 → List TerminalEvent → Lines →
    Option (Lines × List TerminalEvent × Phase)
  | 0, _, _, _, _ => none
  | fuel + 1, buf, data, events, lines =>
      if data = [] then some (lines, events, .idle)
      else
        match if lines.ttyFor jobId then some (buf, lines) else lines.allocLineBuffer with
        | none => none
        | some (buf, lines) =>
            if ¬lines.ttyFor jobId ∧ buf = none then
              some (lines.condWait jobId, events, .emitting sortKey isStderr data)
            else
              let (lines, taken) := if lines.printingJobIndex = none then lines.takeTty qsort woken jobId
                else (lines, [])
              match buf with
              | none => some (lines, events ++ taken, .printing isStderr data)
              | some b =>
                  emitLoop sortKey isStderr fuel (some b) (data.drop (kLineBufSize - 1)) (events ++ taken)
                    (lines.queueLine b ⟨jobId, sortKey, isStderr, data.take (kLineBufSize - 1)⟩)

/-- `TerminalIoEmit` from the beginning or from the `CondWait` on. -/
def emit (sortKey : Int32) (isStderr : Bool) (data : List UInt8) (events : List TerminalEvent) (lines : Lines) :
    Option (Lines × List TerminalEvent × Phase) :=
  lines.emitLoop qsort woken jobId sortKey isStderr (data.length + 1) none data events

/-- `TerminalIoJobExit` when it can print. -/
def exitPrint (lines : Lines) : Lines × List TerminalEvent × Phase :=
  let taken := if lines.printingJobIndex = some jobId then [] else [.take jobId]
  let (lines, writes) := { lines with printingJobIndex := some jobId }.flushOutputQueue qsort woken jobId
  ({ lines with printingJobIndex := none }, taken ++ writes ++ [.release jobId], .signalling)

/-- The loop around the `CondWait` of `TerminalIoJobExit`, up to where it sleeps. -/
def exitWait (lines : Lines) : Lines × List TerminalEvent × Phase :=
  if lines.printingJobIndex ≠ none then (lines.condWait jobId, [], .exiting) else lines.exitPrint qsort woken jobId

/-- `TerminalIoJobExit`. -/
def jobExit (lines : Lines) : Lines × List TerminalEvent × Phase :=
  if lines.printingJobIndex ≠ some jobId then lines.exitWait qsort woken jobId else lines.exitPrint qsort woken jobId

end Lines

/-- The variables and the threads of the jobs. -/
structure State where
  lines : Lines
  phase : Nat → Phase

inductive Action where
  | emit (jobId : Nat) (sortKey : Int32) (isStderr : Bool) (data : List UInt8) (woken : Nat)
  | exit (jobId : Nat) (woken : Nat)
  /-- A thread that was woken up gets the lock. -/
  | resume (jobId : Nat) (woken : Nat)
  /-- The `write` of the owner of the TTY. -/
  | print (jobId : Nat)
  /-- The `CondBroadcast` of `TerminalIoJobExit`. -/
  | broadcast (jobId : Nat)
  /-- A thread wakes up without a reason. -/
  | wake (jobId : Nat)

namespace State

/-- A thread has released the lock. -/
def leave (s : State) (jobId : Nat) (left : Lines × List TerminalEvent × Phase) : State × List TerminalEvent :=
  (⟨left.1, Function.update s.phase jobId left.2.2⟩, left.2.1)

def step (qsort : Qsort) (s : State) : Action → Option (State × List TerminalEvent)
  | .emit jobId sortKey isStderr data woken =>
      if s.phase jobId = .idle then
        (s.lines.emit qsort woken jobId sortKey isStderr data [.emit jobId sortKey isStderr data]).map (s.leave jobId)
      else none
  | .exit jobId woken =>
      if s.phase jobId = .idle then some (s.leave jobId (s.lines.jobExit qsort woken jobId)) else none
  | .resume jobId woken =>
      if jobId ∈ s.lines.canPrint then none
      else
        match s.phase jobId with
        | .emitting sortKey isStderr data =>
            (s.lines.emit qsort woken jobId sortKey isStderr data []).map (s.leave jobId)
        | .exiting => some (s.leave jobId (s.lines.exitWait qsort woken jobId))
        | _ => none
  | .print jobId =>
      match s.phase jobId with
      | .printing isStderr data => some (s.leave jobId (s.lines, [.write jobId isStderr data], .idle))
      | _ => none
  | .broadcast jobId =>
      if s.phase jobId = .signalling then some (s.leave jobId (s.lines.condBroadcast, [.exited jobId], .idle)) else none
  | .wake jobId => some (⟨{ s.lines with canPrint := s.lines.canPrint.erase jobId }, s.phase⟩, [])

end State

/-- Jobs that print, one thread for each. -/
def terminal (qsort : Qsort) : Transition.System State Action TerminalEvent where
  init := ⟨.init, fun _ => .idle⟩
  step := State.step qsort

end Tundra.Terminal
