import Tundra.Common
import Tundra.Lib.Transition
import Mathlib.Logic.Function.Basic

/-!
# Running a command

`ExecuteProcess` of `ExecUnix.cpp`: a command is started with its two outputs in pipes, and a loop around
`select`, `read` and `waitpid` hands what comes out of them to the terminal until the command has ended. The
command and everything that it starts do what they like: they write to the pipes and close their ends in any
order, and a process that the command leaves behind may hold a pipe open after the command itself has ended. The
answers of the operating system come from outside, one with each system call.

What the command sees of its environment variables is left to it.
-/

namespace Tundra.ExecUnix

inductive Ended
  | exited (code : UInt8)
  | signalled (sig : Nat) (hsig : 0 < sig ∧ sig < 127) (core : Bool)
deriving DecidableEq

/-- The status that `waitpid` hands out. -/
def Ended.status : Ended → Nat
  | .exited code => code.toNat * 256
  | .signalled sig _ core => sig + if core then 128 else 0

def wIfSignaled (status : Nat) : Bool := status % 128 ≠ 0 && status % 128 ≠ 127

def wTermSig (status : Nat) : Nat := status % 128

def wExitStatus (status : Nat) : Nat := status / 256 % 256

structure ExecResult where
  returnCode : Nat
  wasSignalled : Bool
deriving DecidableEq

/-- The arguments of `ExecuteProcess`. -/
structure Command where
  cmdLine : CString
  echoCmdline : Bool
  annotation : Option CString
deriving DecidableEq

/-- A call of the terminal: `TerminalIoEmit`, or `TerminalIoJobExit`. -/
inductive Call
  | emit (sortKey : Int32) (isStderr : Bool) (data : List UInt8)
  | jobExit
deriving DecidableEq

/-- The text that `TerminalIoPrintf` emits: what `vsnprintf` leaves in its array. -/
def printed (text : List UInt8) : List UInt8 := text.take 16383

def newline : List UInt8 := [10]

def terminalIoPrintf (sortKey : Int32) (text : List UInt8) : Call := .emit sortKey false (printed text)

def annotationLine ( annotation : CString) : Call := terminalIoPrintf (-200) ( annotation.bytes ++ newline)

def echoLine (cmdLine : CString) : Call := terminalIoPrintf (-199) (cmdLine.bytes ++ newline)

/-- The line about the end of a command, if there is one. -/
def endLine (command : Command) (status : Nat) : Option Call :=
  if wIfSignaled status then
    some (terminalIoPrintf Int32.maxValue
      ((CString.lit "child process exited on signal ").bytes ++ (CString.lit (toString (wTermSig status))).bytes ++
      (CString.lit ": ").bytes ++ command.cmdLine.bytes ++ newline))
  else if wExitStatus status ≠ 0 ∧ ¬command.echoCmdline then
    some (terminalIoPrintf Int32.maxValue
      ((CString.lit "child process failed with exit code ").bytes ++
      (CString.lit (toString (wExitStatus status))).bytes ++
      (CString.lit ": ").bytes ++ command.cmdLine.bytes ++ newline))
  else none

/-- The result that goes with a status. -/
def resultOf (status : Nat) : ExecResult := if wIfSignaled status then ⟨1, true⟩ else ⟨wExitStatus status, false⟩

/-- Where `ExecuteProcess` is: in front of the system call, or of the call of the terminal, that comes next. -/
inductive Pc
  | fork
  | annotation
  | echo
  | loop
  /-- In the loop over the two pipes after a `select`, with what `FD_ISSET` says of them. -/
  | scan (isStderr : Bool) (isSet : Bool → Bool)
  | wait
  | report (returnCode : Nat)
  | exit (returnCode : Nat)
  | done (result : ExecResult)

inductive Child
  | unborn
  | running
  | ended (how : Ended)
deriving DecidableEq

/-- The variables of `ExecuteProcess`, and the world that it looks at. -/
structure State where
  pc : Pc
  /-- Whether `rfds[fd]` is not zero. -/
  rfds : Bool → Bool
  rfdCount : Int
  sortKey : Nat
  /-- What is in the pipes. -/
  pipe : Bool → List UInt8
  /-- Whether there is a process that can write to the pipes. -/
  writers : Bool → Bool
  child : Child

inductive Answer
  /-- A call that cannot fail, or does not. -/
  | ok
  /-- A call that fails, with an `errno` that is not `EAGAIN`. -/
  | fails
  /-- `select` returns, and this is what `FD_ISSET` says. -/
  | selected (isSet : Bool → Bool)
  /-- `read` returns so many bytes. -/
  | bytes (count : Nat)
  /-- `read` is at the end of the file, and `errno` has been `EAGAIN` before, or not. -/
  | eof (staleAgain : Bool)
  /-- `read` fails with `EAGAIN`. -/
  | again
  /-- `waitpid` finds the process running. -/
  | running

/-- What happens next: in one of the other processes, or in `ExecuteProcess`. -/
inductive Action
  | write (isStderr : Bool) (data : List UInt8)
  | close (isStderr : Bool)
  | finish (how : Ended)
  | run (answer : Answer)

/-- What can be seen: what the other processes write, and the calls of the terminal, where `output` is the one
of `EmitData`. -/
inductive Event
  | wrote (isStderr : Bool) (data : List UInt8)
  | line (c : Call)
  | output (sortKey : Int32) (isStderr : Bool) (data : List UInt8)
  | jobExit
deriving DecidableEq

def Event.call : Event → Option Call
  | .wrote _ _ => none
  | .line c => some c
  | .output sortKey isStderr data => some (.emit sortKey isStderr data)
  | .jobExit => some .jobExit

namespace State

def init : State := ⟨.fork, fun _ => true, 2, 0, fun _ => [], fun _ => false, .unborn⟩

def goto (s : State) (pc : Pc) : State := { s with pc := pc }

/-- Whether the pipe can be read to the end: nothing is in it and nothing will be. -/
def atEnd (s : State) (isStderr : Bool) : Bool := (s.pipe isStderr).isEmpty && !s.writers isStderr

/-- The next turn of the loop over the pipes. -/
def nextFd (s : State) (isStderr : Bool) (isSet : Bool → Bool) :
    State := s.goto (if isStderr then .wait else .scan true isSet)

/-- The call of `EmitData`: the sort key is used up, and the pipe is given up when there is an error. -/
def emitData (s : State) (isStderr : Bool) (isSet : Bool → Bool) (failed : Bool) : State :=
  { s.nextFd isStderr isSet with
    sortKey := s.sortKey + 1
    rfds := if failed then Function.update s.rfds isStderr false else s.rfds
    rfdCount := if failed then s.rfdCount - 1 else s.rfdCount }

/-- What a `read` of `sizeof(text) - 1` bytes takes out of a pipe. -/
def take (s : State) (isStderr : Bool) (count : Nat) :
    State := { s with pipe := Function.update s.pipe isStderr ((s.pipe isStderr).drop count) }

/-- A step of `ExecuteProcess`. There is none where the operating system does not give the answer. -/
def run (command : Command) (s : State) (answer : Answer) : Option (State × List Event) :=
  match s.pc, answer with
  | .fork, .ok => some (({ s with writers := fun _ => true, child := .running } : State).goto Pc.annotation, [])
  | .fork, .fails => some (s.goto (.done ⟨1, false⟩), [])
  | Pc.annotation, .ok =>
      some (s.goto .echo, (command.annotation.map fun annotation => Event.line (annotationLine annotation)).toList)
  | .echo, .ok => some (s.goto .loop, if command.echoCmdline then [.line (echoLine command.cmdLine)] else [])
  | .loop, .ok => if s.rfdCount > 0 then none else some (s.goto .wait, [])
  | .loop, .fails => if s.rfdCount > 0 then some (s, []) else none
  | .loop, .selected isSet => if s.rfdCount > 0 then some (s.goto (.scan false isSet), []) else none
  | .scan isStderr isSet, answer =>
      if s.rfds isStderr ∧ isSet isStderr then
        match answer with
        | .bytes count =>
            if 0 < count ∧ count ≤ 8191 ∧ count ≤ (s.pipe isStderr).length then
              some ((s.emitData isStderr isSet false).take isStderr count,
                [.output (Int32.ofNat s.sortKey) isStderr ((s.pipe isStderr).take count)])
            else none
        | .eof staleAgain => if s.atEnd isStderr then some (s.emitData isStderr isSet !staleAgain, []) else none
        | .again => some (s.emitData isStderr isSet false, [])
        | .fails => some (s.emitData isStderr isSet true, [])
        | _ => none
      else
        match answer with
        | .ok => some (s.nextFd isStderr isSet, [])
        | _ => none
  | .wait, .running => if s.rfdCount > 0 ∧ s.child = .running then some (s.goto .loop, []) else none
  | .wait, .fails => some (s.goto (.report 1), [])
  | .wait, .ok =>
      match s.child with
      | .ended how => some (s.goto (.report how.status), [])
      | _ => none
  | .report returnCode, .ok => some (s.goto (.exit returnCode), ((endLine command returnCode).map Event.line).toList)
  | .exit returnCode, .ok => some (s.goto (.done (resultOf returnCode)), [.jobExit])
  | _, _ => none

def step (command : Command) (s : State) : Action → Option (State × List Event)
  | .write isStderr data =>
      if s.writers isStderr then
        some ({ s with pipe := Function.update s.pipe isStderr (s.pipe isStderr ++ data) }, [.wrote isStderr data])
        else none
  | .close isStderr =>
      if s.writers isStderr then some ({ s with writers := Function.update s.writers isStderr false }, []) else none
  | .finish how => if s.child = .running then some ({ s with child := .ended how }, []) else none
  | .run answer => s.run command answer

end State

def executeProcess (command : Command) : Transition.System State Action Event where
  init := .init
  step := State.step command

end Tundra.ExecUnix
