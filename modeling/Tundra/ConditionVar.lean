import Mathlib.Data.Option.Basic
import Mathlib.Tactic.SplitIfs

/-!
# The condition variable for Windows before Vista

`ConditionVar.cpp`: a semaphore for the waiters, an auto-reset event with which the last of them tells a
broadcast that all are through, and a count of the waiters behind a critical section. A routine is a step
function over its own places in the code. What stands between `EnterCriticalSection` and `LeaveCriticalSection`
is one step, since nothing in there blocks and nothing outside touches these fields, but for the reset of
`was_broadcast_`, which is a step of its own. `SignalObjectAndWait` is two steps: Windows does not promise that
it is atomic.
-/

namespace Tundra

/-- `ConditionVariable`. `sema` is the count of the semaphore, `waitersDone` says whether the event is set. -/
structure ConditionVariable where
  waitersCount : Int
  sema : Nat
  waitersDone : Bool
  wasBroadcast : Bool
deriving DecidableEq

/-- What a thread can do where it stands: nothing yet, end the program, or go on. -/
inductive Attempt (σ : Type)
  | blocked
  | croak
  | next (s : σ)
deriving DecidableEq

def Attempt.isBlocked {σ : Type} : Attempt σ → Bool
  | .blocked => true
  | _ => false

theorem Attempt.eq_blocked {σ : Type} {attempt : Attempt σ} (h : attempt.isBlocked = true) : attempt = .blocked := by
  cases attempt with
  | blocked => rfl
  | croak => cases h
  | next s => cases h

/-- Places in `CondWait`. -/
inductive CondWaitPc
  | enter
  | release
  | wait
  | leave
  | signalDone
  | reacquire
deriving DecidableEq

/-- Places in `CondSignal`. -/
inductive CondSignalPc
  | test
  | release (haveWaiters : Bool)
deriving DecidableEq

/-- Places in `CondBroadcast`. -/
inductive CondBroadcastPc
  | release
  | waitDone
  | reset
deriving DecidableEq

namespace ConditionVariable

/-- `CondInit`. -/
def init : ConditionVariable := ⟨0, 0, false, false⟩

/-- `ReleaseSemaphore`, which refuses to go over the maximum that `CondInit` gave. -/
def releaseSemaphore (var : ConditionVariable) (count : Int) : Option ConditionVariable :=
  if 0 < count ∧ var.sema + count.toNat ≤ 0x7fffffff then some { var with sema := var.sema + count.toNat } else none

theorem releaseSemaphore_eq {var var' : ConditionVariable} {count : Int} (h : var.releaseSemaphore count = some var') :
    var' = { var with sema := var.sema + count.toNat } := by
  unfold releaseSemaphore at h
  split_ifs at h
  exact (Option.some.inj h).symm

theorem lt_of_releaseSemaphore_none {var : ConditionVariable} {count : Int} (hcount : 0 < count)
    (h : var.releaseSemaphore count = none) :
    0x7fffffff < var.sema + count.toNat := by
  unfold releaseSemaphore at h
  split_ifs at h with hfits
  exact Nat.lt_of_not_le fun hle => hfits ⟨hcount, hle⟩

variable {Thread : Type} [DecidableEq Thread]

/-- A step of `CondWait` on a mutex with the given owner. No place left means that it returns. -/
def condWait (t : Thread) (mutex : Option Thread) (var : ConditionVariable) :
    CondWaitPc → Attempt (Option Thread × ConditionVariable × Option CondWaitPc)
  | .enter => .next (mutex, { var with waitersCount := var.waitersCount + 1 }, some .release)
  | .release => if mutex = some t then .next (none, var, some .wait) else .croak
  | .wait => if 0 < var.sema then .next (mutex, { var with sema := var.sema - 1 }, some .leave) else .blocked
  | .leave =>
      let var := { var with waitersCount := var.waitersCount - 1 }
      let lastWaiter := var.wasBroadcast && decide (var.waitersCount = 0)
      .next (mutex, var, some (if lastWaiter then .signalDone else .reacquire))
  | .signalDone => .next (mutex, { var with waitersDone := true }, some .reacquire)
  | .reacquire => if mutex = none then .next (some t, var, none) else .blocked

def condSignal (var : ConditionVariable) : CondSignalPc → Attempt (ConditionVariable × Option CondSignalPc)
  | .test => .next (var, some (.release (decide (var.waitersCount > 0))))
  | .release false => .next (var, none)
  | .release true =>
      match var.releaseSemaphore 1 with
      | some var => .next (var, none)
      | none => .croak

def condBroadcast (var : ConditionVariable) : CondBroadcastPc → Attempt (ConditionVariable × Option CondBroadcastPc)
  | .release =>
      if var.waitersCount > 0 then
        match { var with wasBroadcast := true }.releaseSemaphore var.waitersCount with
        | some var => .next (var, some .waitDone)
        | none => .croak
      else .next (var, none)
  | .waitDone => if var.waitersDone then .next ({ var with waitersDone := false }, some .reset) else .blocked
  | .reset => .next ({ var with wasBroadcast := false }, none)

end ConditionVariable

end Tundra
