import Tundra.ExecUnix

/-!
# What a step of a command can do

Every step of `ExecuteProcess` and of the processes that it looks at, with what it was taken in front of.
Nothing after this looks into the step itself.
-/

namespace Tundra.ExecUnix

open Transition

def Pc.inLoop : Pc → Bool
  | .loop => true
  | .scan _ _ => true
  | .wait => true
  | _ => false

/-- The turns of the loop that neither read nor look after the process for the last time. -/
inductive Turns (s : State) : Answer → Pc → Prop
  | allRead (hpc : s.pc = .loop) (hnone : ¬s.rfdCount > 0) : Turns s .ok .wait
  | selected {isSet : Bool → Bool} (hpc : s.pc = .loop) : Turns s (.selected isSet) (.scan false isSet)
  | skipped {isStderr : Bool} {isSet : Bool → Bool} (hpc : s.pc = .scan isStderr isSet) :
      Turns s .ok (if isStderr then .wait else .scan true isSet)
  | polled (hpc : s.pc = .wait) (hrunning : s.child = .running) : Turns s .running .loop

/-- Everything a step can do. -/
inductive Moves (command : Command) (s : State) : Action → State → List Event → Prop
  | wrote {isStderr : Bool} {data : List UInt8} (hwriters : s.writers isStderr = true) :
      Moves command s (.write isStderr data)
      { s with pipe := Function.update s.pipe isStderr (s.pipe isStderr ++ data) } [.wrote isStderr data]
  | closed {isStderr : Bool} : Moves command s (.close isStderr)
      { s with writers := Function.update s.writers isStderr false } []
  | ended {how : Ended} (hchild : s.child = .running) : Moves command s (.finish how) { s with child := .ended how } []
  | forked (hpc : s.pc = .fork) : Moves command s (.run .ok)
      (({ s with writers := fun _ => true, child := .running } : State).goto Pc.annotation) []
  | forkFailed (hpc : s.pc = .fork) : Moves command s (.run .fails) (s.goto (.done ⟨1, false⟩)) []
  | annotated (hpc : s.pc = Pc.annotation) : Moves command s (.run .ok) (s.goto .echo)
      (command.annotation.map fun annotation => Event.line (annotationLine annotation)).toList
  | echoed (hpc : s.pc = .echo) : Moves command s (.run .ok) (s.goto .loop)
      (if command.echoCmdline then [.line (echoLine command.cmdLine)] else [])
  | interrupted (hpc : s.pc = .loop) : Moves command s (.run .fails) s []
  | turned {answer : Answer} {pc : Pc} (hturns : Turns s answer pc) : Moves command s (.run answer) (s.goto pc) []
  | output {isStderr : Bool} {isSet : Bool → Bool} {count : Nat} (hpc : s.pc = .scan isStderr isSet)
      (hpos : 0 < count) (hcount : count ≤ 8191) :
      Moves command s (.run (.bytes count)) ((s.emitData isStderr isSet false).take isStderr count)
        [.output (Int32.ofNat s.sortKey) isStderr ((s.pipe isStderr).take count)]
  | silent {isStderr : Bool} {isSet : Bool → Bool} {answer : Answer} {failed : Bool}
      (hpc : s.pc = .scan isStderr isSet) :
      Moves command s (.run answer) (s.emitData isStderr isSet failed) []
  | lost (hpc : s.pc = .wait) : Moves command s (.run .fails) (s.goto (.report 1)) []
  | reaped {how : Ended} (hpc : s.pc = .wait) (hchild : s.child = .ended how) : Moves command s (.run .ok)
      (s.goto (.report how.status)) []
  | reported {returnCode : Nat} (hpc : s.pc = .report returnCode) : Moves command s (.run .ok)
      (s.goto (.exit returnCode))
      ((endLine command returnCode).map Event.line).toList
  | exited {returnCode : Nat} (hpc : s.pc = .exit returnCode) : Moves command s (.run .ok)
      (s.goto (.done (resultOf returnCode))) [.jobExit]

variable {command : Command} {s s' : State} {a : Action} {answer : Answer} {tr es : List Event}

theorem scan_moves {isStderr : Bool} {isSet : Bool → Bool} (hpc : s.pc = .scan isStderr isSet)
    (h : s.run command answer = some (s', es)) :
    Moves command s (.run answer) s' es := by
  simp only [State.run, hpc] at h
  by_cases hset : s.rfds isStderr ∧ isSet isStderr
  · simp only [if_pos hset] at h
    cases answer with
    | bytes count =>
        dsimp only at h
        split_ifs at h with hcount
        cases h
        exact .output hpc hcount.1 hcount.2.1
    | eof staleAgain =>
        dsimp only at h
        split_ifs at h
        cases h
        exact .silent hpc
    | again | fails =>
        cases h
        exact .silent hpc
    | ok | selected | running => cases h
  · simp only [if_neg hset] at h
    cases answer with
    | ok =>
        cases h
        exact .turned (.skipped hpc)
    | fails | selected | bytes | eof | again | running => cases h

theorem loop_moves (hpc : s.pc = .loop) (h : s.run command answer = some (s', es)) :
    Moves command s (.run answer) s' es := by
  simp only [State.run, hpc] at h
  cases answer with
  | ok =>
      dsimp only at h
      split_ifs at h with hcount
      cases h
      exact .turned (.allRead hpc hcount)
  | fails =>
      dsimp only at h
      split_ifs at h
      cases h
      exact .interrupted hpc
  | selected isSet =>
      dsimp only at h
      split_ifs at h
      cases h
      exact .turned (.selected hpc)
  | bytes | eof | again | running => cases h

theorem wait_moves (hpc : s.pc = .wait) (h : s.run command answer = some (s', es)) :
    Moves command s (.run answer) s' es := by
  simp only [State.run, hpc] at h
  cases answer with
  | ok =>
      cases hchild : s.child with
      | ended how =>
          simp only [hchild] at h
          cases h
          exact .reaped hpc hchild
      | unborn | running => simp [hchild] at h
  | fails =>
      cases h
      exact .lost hpc
  | running =>
      dsimp only at h
      split_ifs at h with hrunning
      cases h
      exact .turned (.polled hpc hrunning.2)
  | selected | bytes | eof | again => cases h

theorem run_moves (h : s.run command answer = some (s', es)) : Moves command s (.run answer) s' es := by
  cases hpc : s.pc with
  | loop => exact loop_moves hpc h
  | scan isStderr isSet => exact scan_moves hpc h
  | wait => exact wait_moves hpc h
  | fork =>
      simp only [State.run, hpc] at h
      cases answer with
      | ok =>
          cases h
          exact .forked hpc
      | fails =>
          cases h
          exact .forkFailed hpc
      | selected | bytes | eof | again | running => cases h
  | annotation | echo | report | exit =>
      simp only [State.run, hpc] at h
      cases answer with
      | ok =>
          cases h
          first | exact .annotated hpc | exact .echoed hpc | exact .reported hpc | exact .exited hpc
      | fails | selected | bytes | eof | again | running => cases h
  | done result =>
      cases answer <;> simp [State.run, hpc] at h

theorem step_moves (h : (executeProcess command).step s a = some (s', es)) : Moves command s a s' es := by
  change s.step command a = some (s', es) at h
  cases a with
  | write isStderr data =>
      rw [State.step] at h
      split_ifs at h with hwriters
      cases h
      exact .wrote hwriters
  | close isStderr =>
      rw [State.step] at h
      split_ifs at h
      cases h
      exact .closed
  | finish how =>
      rw [State.step] at h
      split_ifs at h with hchild
      cases h
      exact .ended hchild
  | run answer => exact run_moves h

end Tundra.ExecUnix
