import Tundra.ConditionVar
import Tundra.Lib.Census
import Tundra.Lib.Transition
import Mathlib.Data.Fin.Basic
import Mathlib.Logic.Function.Basic
import Mathlib.Tactic.Simps.Basic

/-!
# The read/write lock for Windows before Vista

`ReadWriteLock.cpp` on top of the condition variable of `ConditionVar.cpp`, as a transition system of any number
of threads. A thread that has nothing to do with the lock may ask for it in either way, a thread that has it may
give it back, and in between it goes through the code one place at a time; the other threads move whenever they
can.
-/

namespace Tundra

/-- The two ways to take the lock. -/
inductive LockKind
  | read
  | write
deriving DecidableEq

namespace ReadWriteLock

/-- Where a thread stands in `ReadWriteLockRead` and `ReadWriteLockWrite` (`lock…`), with the lock (`holding`),
in `ReadWriteUnlockRead` and `ReadWriteUnlockWrite` (`unlock…`), or nowhere near the lock. The `…Enter` places
are in front of `MutexLock`, the `…Exit` places in front of `MutexUnlock`. -/
inductive Pc
  | idle
  | lockEnter (kind : LockKind)
  | lockTest (kind : LockKind)
  | lockLoop (kind : LockKind)
  | lockWait (kind : LockKind) (place : CondWaitPc)
  | lockExit (kind : LockKind)
  | holding (kind : LockKind)
  | unlockEnter (kind : LockKind)
  | unlockBody (kind : LockKind)
  | unlockSignal (kind : LockKind) (place : CondSignalPc)
  | unlockBroadcast (place : CondBroadcastPc)
  | unlockExit (kind : LockKind)
deriving DecidableEq

/-- `ReadWriteLock` and its threads: `active` and `waiting` are `m_ActiveReaders`, `m_ActiveWriters`,
`m_WaitingReaders`, `m_WaitingWriters`, and `cond` is `m_Read` and `m_Write`. -/
structure State (n : Nat) where
  mutex : Option (Fin n)
  cond : LockKind → ConditionVariable
  active : LockKind → Int
  waiting : LockKind → Int
  thread : Fin n → Pc
  croaked : Bool

inductive Action (n : Nat)
  | lock (t : Fin n) (kind : LockKind)
  | unlock (t : Fin n)
  | run (t : Fin n)

variable {n : Nat}

namespace State

@[simps -fullyApplied] def goto (s : State n) (t : Fin n) (pc : Pc) :
    State n := { s with thread := Function.update s.thread t pc }

@[simps -fullyApplied] def setMutex (s : State n) (owner : Option (Fin n)) : State n := { s with mutex := owner }

@[simps -fullyApplied] def setCond (s : State n) (kind : LockKind) (var : ConditionVariable) :
    State n := { s with cond := Function.update s.cond kind var }

@[simps -fullyApplied] def addActive (s : State n) (kind : LockKind) (d : Int) :
    State n := { s with active := Function.update s.active kind (s.active kind + d) }

@[simps -fullyApplied] def addWaiting (s : State n) (kind : LockKind) (d : Int) : State n :=
  { s with waiting := Function.update s.waiting kind (s.waiting kind + d) }

def mutexLock (s : State n) (t : Fin n) (pc : Pc) : Attempt (State n) :=
  if s.mutex = none then .next ((s.setMutex (some t)).goto t pc) else .blocked

def mutexUnlock (s : State n) (t : Fin n) (pc : Pc) : Attempt (State n) :=
  if s.mutex = some t then .next ((s.setMutex none).goto t pc) else .croak

/-- The condition of the `if` and the `while` of `ReadWriteLockRead` and of `ReadWriteLockWrite`. -/
def busy (s : State n) : LockKind → Bool
  | .read => decide (s.active .write > 0)
  | .write => decide (s.active .read > 0) || decide (s.active .write > 0)

/-- `ReadWriteLockRead` and `ReadWriteLockWrite` between the two ends of the mutex. -/
def lockBody (s : State n) (t : Fin n) (kind : LockKind) : State n :=
  if s.busy kind then (s.addWaiting kind 1).goto t (.lockLoop kind) else (s.addActive kind 1).goto t (.lockExit kind)

def lockAgain (s : State n) (t : Fin n) (kind : LockKind) : State n :=
  if s.busy kind then s.goto t (.lockWait kind .enter)
    else ((s.addWaiting kind (-1)).addActive kind 1).goto t (.lockExit kind)

/-- `ReadWriteUnlockRead` and `ReadWriteUnlockWrite` between the two ends of the mutex. -/
def unlockBody (s : State n) (t : Fin n) : LockKind → State n
  | .read =>
      let s := s.addActive .read (-1)
      if s.active .read = 0 ∧ s.waiting .write > 0 then s.goto t (.unlockSignal .read .test)
        else s.goto t (.unlockExit .read)
  | .write =>
      let s := s.addActive .write (-1)
      if s.waiting .read ≠ 0 then s.goto t (.unlockBroadcast .release)
      else if s.waiting .write ≠ 0 then s.goto t (.unlockSignal .write .test)
      else s.goto t (.unlockExit .write)

/-- A step of the thread through the code. -/
def run (s : State n) (t : Fin n) : Attempt (State n) :=
  match s.thread t with
  | .idle | .holding _ => .blocked
  | .lockEnter kind => s.mutexLock t (.lockTest kind)
  | .lockTest kind => .next (s.lockBody t kind)
  | .lockLoop kind => .next (s.lockAgain t kind)
  | .lockWait kind place =>
      match (s.cond kind).condWait t s.mutex place with
      | .blocked => .blocked
      | .croak => .croak
      | .next (mutex, var, place) =>
          .next (((s.setMutex mutex).setCond kind var).goto t ((place.map (.lockWait kind)).getD (.lockLoop kind)))
  | .lockExit kind => s.mutexUnlock t (.holding kind)
  | .unlockEnter kind => s.mutexLock t (.unlockBody kind)
  | .unlockBody kind => .next (s.unlockBody t kind)
  | .unlockSignal kind place =>
      match (s.cond .write).condSignal place with
      | .blocked => .blocked
      | .croak => .croak
      | .next (var, place) =>
          .next ((s.setCond .write var).goto t ((place.map (.unlockSignal kind)).getD (.unlockExit kind)))
  | .unlockBroadcast place =>
      match (s.cond .read).condBroadcast place with
      | .blocked => .blocked
      | .croak => .croak
      | .next (var, place) =>
          .next ((s.setCond .read var).goto t ((place.map .unlockBroadcast).getD (.unlockExit .write)))
  | .unlockExit _ => s.mutexUnlock t .idle

/-- A step of the system; nothing moves in a program that has croaked. -/
def step (s : State n) (a : Action n) : Option (State n × List Empty) :=
  if s.croaked then none
  else
    match a with
    | .lock t kind => if s.thread t = .idle then some (s.goto t (.lockEnter kind), []) else none
    | .unlock t =>
        match s.thread t with
        | .holding kind => some (s.goto t (.unlockEnter kind), [])
        | _ => none
    | .run t =>
        match s.run t with
        | .blocked => none
        | .croak => some ({ s with croaked := true }, [])
        | .next s => some (s, [])

/-- `ReadWriteLockInit`. -/
def init (n : Nat) : State n := ⟨none, fun _ => .init, fun _ => 0, fun _ => 0, fun _ => .idle, false⟩

end State

/-- Any number of threads around one lock. -/
def system (n : Nat) : Transition.System (State n) (Action n) Empty := ⟨.init n, State.step⟩

abbrev Reaches (s : State n) : Prop := ∃ tr, Transition.Reach (system n) Transition.anything s tr

end ReadWriteLock

end Tundra
