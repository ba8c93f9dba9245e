import Tundra.ExecUnix.Moves
import Mathlib.Data.List.Pairwise

/-!
# What a command prints

In every run of `ExecuteProcess`, whatever the command and its descendants do: what is emitted from a pipe is
the beginning of what was written to it and the rest is still in the pipe, the sort keys increase from call to
call, and the calls of a run that has returned are the line with the annotation, the line with the command, what
came out of the pipes, the line about the end, and the exit of the job. A result with code zero is that of a
command that has exited with code zero.
-/

namespace Tundra.ExecUnix

open Transition

/-- What was written to a pipe. -/
def wrote (isStderr : Bool) (tr : List Event) : List UInt8 :=
  tr.flatMap fun
    | .wrote fd data => if fd = isStderr then data else []
    | _ => []

/-- What was emitted from a pipe. -/
def received (isStderr : Bool) (tr : List Event) : List UInt8 :=
  tr.flatMap fun
    | .output _ fd data => if fd = isStderr then data else []
    | _ => []

def calls (tr : List Event) : List Call := tr.filterMap Event.call

/-- The calls of `EmitData`. -/
def outputs (tr : List Event) : List Call :=
  tr.filterMap fun
    | .output sortKey isStderr data => some (.emit sortKey isStderr data)
    | _ => none

def keys (cs : List Call) : List Int32 :=
  cs.filterMap fun
    | .emit sortKey _ _ => some sortKey
    | .jobExit => none

@[simp] theorem wrote_append (isStderr : Bool) (tr es : List Event) :
    wrote isStderr (tr ++ es) = wrote isStderr tr ++ wrote isStderr es :=
  List.flatMap_append

@[simp] theorem received_append (isStderr : Bool) (tr es : List Event) :
    received isStderr (tr ++ es) = received isStderr tr ++ received isStderr es :=
  List.flatMap_append

@[simp] theorem calls_append (tr es : List Event) : calls (tr ++ es) = calls tr ++ calls es := List.filterMap_append

@[simp] theorem outputs_append (tr es : List Event) :
    outputs (tr ++ es) = outputs tr ++ outputs es := List.filterMap_append

@[simp] theorem keys_append (cs ds : List Call) : keys (cs ++ ds) = keys cs ++ keys ds := List.filterMap_append

/-- The lines in front of the output. -/
def header (command : Command) : List Call :=
  (command.annotation.map annotationLine).toList ++ if command.echoCmdline then [echoLine command.cmdLine] else []

def footer (command : Command) (status : Nat) : List Call := (endLine command status).toList

@[simp] theorem calls_lines (line : Option Call) : calls (line.map Event.line).toList = line.toList := by
  cases line <;> rfl

@[simp] theorem outputs_lines (line : Option Call) : outputs (line.map Event.line).toList = [] := by
  cases line <;> rfl

@[simp] theorem wrote_lines (isStderr : Bool) (line : Option Call) :
    wrote isStderr (line.map Event.line).toList = [] := by
  cases line <;> rfl

@[simp] theorem received_lines (isStderr : Bool) (line : Option Call) :
    received isStderr (line.map Event.line).toList = [] := by
  cases line <;> rfl

variable {command : Command} {s s' : State} {a : Action} {tr es : List Event}

/-! ### Nothing is lost but what is left in the pipes -/

theorem moves_flow (hmoves : Moves command s a s' es) (isStderr : Bool) :
    received isStderr es ++ s'.pipe isStderr = s.pipe isStderr ++ wrote isStderr es := by
  cases hmoves with
  | @wrote fd data hwriters =>
      by_cases hfd : fd = isStderr
      · subst hfd
        simp [received, wrote]
      · simp [received, wrote, hfd, Function.update_of_ne (Ne.symm hfd)]
  | @output fd isSet count hpc hpos hcount =>
      by_cases hfd : fd = isStderr
      · subst hfd
        simp [received, wrote, State.take, State.emitData, State.nextFd, State.goto, List.take_append_drop]
      · simp [received, wrote, hfd, Function.update_of_ne (Ne.symm hfd), State.take, State.emitData, State.nextFd,
          State.goto]
  | annotated hpc =>
      cases command.annotation <;> simp [received, wrote, State.goto]
  | echoed hpc =>
      by_cases hecho : command.echoCmdline <;> simp [received, wrote, State.goto, hecho]
  | reported hpc => simp [State.goto]
  | closed | ended | forked | forkFailed | interrupted | turned | silent | lost | reaped | exited =>
      exact (List.append_nil _).symm

theorem reach_flow (h : Reach (executeProcess command) anything s tr) (isStderr : Bool) :
    received isStderr tr ++ s.pipe isStderr = wrote isStderr tr := by
  refine h.invariant (P := fun s tr => received isStderr tr ++ s.pipe isStderr = wrote isStderr tr) rfl
    (fun s tr a s' es _ hflow _ hstep => ?_)
  rw [received_append, wrote_append, List.append_assoc, moves_flow (step_moves hstep), ← List.append_assoc, hflow]

/-! ### The sort keys increase -/

/-- A number that is greater than the keys that were used up to a place. -/
def Pc.bound (sortKey : Nat) : Pc → Int
  | .fork => -200
  | Pc.annotation => -200
  | .echo => -199
  | .exit _ => 2 ^ 31
  | .done _ => 2 ^ 31
  | _ => sortKey

def State.bound (s : State) : Int := s.pc.bound s.sortKey

/-- The key of a step lies between the bounds before and after it. -/
structure Raises (low high : Int) (es : List Event) : Prop where
  le : low ≤ high
  key : ∀ key ∈ keys (calls es), low ≤ key.toInt ∧ key.toInt < high
  increasing : (keys (calls es)).Pairwise (· < ·)

theorem Raises.quiet {low high : Int} (h : low ≤ high) (hquiet : keys (calls es) = []) : Raises low high es :=
  ⟨h, by simp [hquiet], by simp [hquiet]⟩

theorem Raises.none {low high : Int} (h : low ≤ high) : Raises low high [] := .quiet h rfl

theorem Raises.line {low high : Int} {key : Int32} {text : List UInt8} (hle : low ≤ key.toInt)
    (hlt : key.toInt < high) :
    Raises low high [.line (terminalIoPrintf key text)] :=
  ⟨by omega, by simpa [calls, keys, Event.call, terminalIoPrintf] using ⟨hle, hlt⟩, by
    simp [calls, keys, Event.call, terminalIoPrintf]⟩

theorem sortKey_mono (hmoves : Moves command s a s' es) : s.sortKey ≤ s'.sortKey := by
  cases hmoves with
  | output | silent => exact Nat.le_succ _
  | wrote | closed | ended | forked | forkFailed | annotated | echoed | interrupted | turned | lost | reaped | reported | exited =>
      exact Nat.le_refl _

theorem bound_nextFd (s : State) (isStderr : Bool) (isSet : Bool → Bool) (sortKey : Nat) :
    (s.nextFd isStderr isSet).pc.bound sortKey = sortKey := by
  cases isStderr <;> rfl

theorem turns_bound {answer : Answer} {pc : Pc} (hturns : Turns s answer pc) :
    s.bound = s.sortKey ∧ pc.bound s.sortKey = s.sortKey := by
  cases hturns with
  | @skipped isStderr isSet hpc =>
      rw [State.bound, hpc]
      cases isStderr <;> exact ⟨rfl, rfl⟩
  | allRead hpc | selected hpc | polled hpc =>
      rw [State.bound, hpc]
      exact ⟨rfl, rfl⟩

theorem endLine_eq_some {status : Nat} {line : Call} (h : endLine command status = some line) :
    ∃ text, line = terminalIoPrintf Int32.maxValue text := by
  rw [endLine] at h
  split_ifs at h
  · exact ⟨_, (Option.some.inj h).symm⟩
  · exact ⟨_, (Option.some.inj h).symm⟩

theorem moves_raises (hmoves : Moves command s a s' es) (hsortKey : s'.sortKey < 2 ^ 31) :
    Raises s.bound s'.bound es := by
  cases hmoves with
  | wrote | closed | ended => exact .quiet (Int.le_refl _) rfl
  | interrupted => exact .none (Int.le_refl _)
  | forked hpc => exact .none (by simp [State.bound, hpc, State.goto, Pc.bound])
  | forkFailed hpc => exact .none (by simp [State.bound, hpc, State.goto, Pc.bound])
  | turned hturns =>
      obtain ⟨hbefore, hafter⟩ := turns_bound hturns
      exact .none (by rw [hbefore]; exact Int.le_of_eq hafter.symm)
  | annotated hpc =>
      have hbounds : s.bound = -200 ∧ (s.goto .echo).bound = -199 := by
        rw [State.bound, hpc]
        exact ⟨rfl, rfl⟩
      rw [hbounds.1, hbounds.2]
      cases command.annotation with
      | none => exact .none (by omega)
      | some annotation => exact .line (by decide) (by decide)
  | echoed hpc =>
      have hbounds : s.bound = -199 ∧ (s.goto .loop).bound = s.sortKey := by
        rw [State.bound, hpc]
        exact ⟨rfl, rfl⟩
      have hkey : (-199 : Int32).toInt = -199 := by decide
      rw [hbounds.1, hbounds.2]
      split_ifs
      · exact .line (by omega) (by omega)
      · exact .none (by omega)
  | @output isStderr isSet count hpc hpos hcount =>
      have hbefore : s.bound = s.sortKey := by rw [State.bound, hpc]; rfl
      have hafter : ((s.emitData isStderr isSet false).take isStderr count).bound = s.sortKey + 1 :=
        bound_nextFd s isStderr isSet (s.sortKey + 1)
      have hlt : s.sortKey < 2 ^ 31 := Nat.lt_of_succ_lt hsortKey
      have hkey : (Int32.ofNat s.sortKey).toInt = s.sortKey := Int32.toInt_ofNat_of_lt hlt
      rw [hbefore, hafter]
      refine ⟨by omega, ?_, by simp [calls, keys, Event.call]⟩
      simp only [calls, keys, Event.call, List.filterMap_cons, List.filterMap_nil, List.mem_singleton, forall_eq]
      omega
  | @silent isStderr isSet answer failed hpc =>
      have hbefore : s.bound = s.sortKey := by rw [State.bound, hpc]; rfl
      have hafter : (s.emitData isStderr isSet failed).bound = s.sortKey + 1 :=
        bound_nextFd s isStderr isSet (s.sortKey + 1)
      exact .none (by omega)
  | lost hpc | reaped hpc hchild =>
      have hbefore : s.bound = s.sortKey := by rw [State.bound, hpc]; rfl
      exact .none (Int.le_of_eq hbefore)
  | @reported returnCode hpc =>
      have hbounds : s.bound = s.sortKey ∧ (s.goto (.exit returnCode)).bound = 2 ^ 31 := by
        rw [State.bound, hpc]
        exact ⟨rfl, rfl⟩
      have hkey : Int32.maxValue.toInt = 2 ^ 31 - 1 := by decide
      have hlt : s.sortKey < 2 ^ 31 := hsortKey
      rw [hbounds.1, hbounds.2]
      cases hline : endLine command returnCode with
      | none => exact .none (by omega)
      | some line =>
          obtain ⟨text, rfl⟩ := endLine_eq_some hline
          exact .line (by omega) (by omega)
  | exited hpc =>
      have hbefore : s.bound = 2 ^ 31 := by rw [State.bound, hpc]; rfl
      exact .quiet (Int.le_of_eq hbefore) rfl

/-- The keys of a run, and the bound. -/
structure Keyed (s : State) (tr : List Event) : Prop where
  increasing : (keys (calls tr)).Pairwise (· < ·)
  below : ∀ key ∈ keys (calls tr), key.toInt < s.bound

theorem Keyed.raise {s' : State} (h : Keyed s tr) (hraises : Raises s.bound s'.bound es) : Keyed s' (tr ++ es) := by
  constructor
  · rw [calls_append, keys_append, List.pairwise_append]
    refine ⟨h.increasing, hraises.increasing, fun l hl r hr => ?_⟩
    have hbelow := h.below l hl
    have hkey := hraises.key r hr
    rw [Int32.lt_iff_toInt_lt]
    omega
  · intro key hkey
    rw [calls_append, keys_append, List.mem_append] at hkey
    rcases hkey with hkey | hkey
    · exact Int.lt_of_lt_of_le (h.below key hkey) hraises.le
    · exact (hraises.key key hkey).2

theorem reach_keyed (h : Reach (executeProcess command) anything s tr) (hsortKey : s.sortKey < 2 ^ 31) :
    Keyed s tr := by
  refine h.invariant (P := fun s tr => s.sortKey < 2 ^ 31 → Keyed s tr)
    (fun _ => ⟨by simp [calls, keys], by simp [calls, keys]⟩)
    (fun s tr a s' es _ hkeyed _ hstep hsortKey => ?_) hsortKey
  have hmoves := step_moves hstep
  exact (hkeyed (Nat.lt_of_le_of_lt (sortKey_mono hmoves) hsortKey)).raise (moves_raises hmoves hsortKey)

/-! ### The lines -/

/-- A status that `waitpid` may have left: that of the process, or the one that stands for an error. -/
def State.Known (s : State) (status : Nat) : Prop := (∃ how, s.child = .ended how ∧ status = how.status) ∨ status = 1

/-- The calls so far, by the place that is reached. -/
def Printed (command : Command) (s : State) (tr : List Event) : Prop :=
  match s.pc with
  | .fork => calls tr = [] ∧ outputs tr = [] ∧ s.child = .unborn
  | Pc.annotation => calls tr = [] ∧ outputs tr = []
  | .echo => calls tr = (command.annotation.map annotationLine).toList ∧ outputs tr = []
  | .report status => calls tr = header command ++ outputs tr ∧ s.Known status
  | .exit status => calls tr = header command ++ outputs tr ++ footer command status ∧ s.Known status
  | .done result => (calls tr = [] ∧ outputs tr = [] ∧ s.child = .unborn ∧ result = ⟨1, false⟩) ∨
      ∃ status, calls tr = header command ++ outputs tr ++ footer command status ++ [.jobExit] ∧ s.Known status ∧
        result = resultOf status
  | _ => calls tr = header command ++ outputs tr

theorem printed_of_inLoop (hpc : s.pc.inLoop = true) :
    Printed command s tr ↔ calls tr = header command ++ outputs tr := by
  cases h : s.pc <;> simp_all [Printed, Pc.inLoop]

theorem turns_inLoop {answer : Answer} {pc : Pc} (hturns : Turns s answer pc) :
    s.pc.inLoop = true ∧ pc.inLoop = true := by
  cases hturns with
  | @skipped isStderr isSet hpc =>
      rw [hpc]
      cases isStderr <;> exact ⟨rfl, rfl⟩
  | allRead hpc | selected hpc | polled hpc =>
      rw [hpc]
      exact ⟨rfl, rfl⟩

theorem Printed.other (h : Printed command s tr) (hpc : s'.pc = s.pc)
    (hchild : s'.child = s.child ∨ s.child = .running) (hcalls : calls es = []) (houtputs : outputs es = []) :
    Printed command s' (tr ++ es) := by
  have hunborn : s.child = .unborn → s'.child = .unborn := by
    intro hunborn
    rcases hchild with hchild | hrunning
    · exact hchild.trans hunborn
    · cases hunborn.symm.trans hrunning
  have hknown : ∀ {status}, s.Known status → s'.Known status := by
    rintro status (⟨how, hended, hstatus⟩ | hstatus)
    · rcases hchild with hchild | hrunning
      · exact .inl ⟨how, hchild.trans hended, hstatus⟩
      · cases hended.symm.trans hrunning
    · exact .inr hstatus
  simp only [Printed, hpc, calls_append, outputs_append, hcalls, houtputs, List.append_nil]
  simp only [Printed] at h
  cases hplace : s.pc with
  | fork =>
      simp only [hplace] at h
      exact ⟨h.1, h.2.1, hunborn h.2.2⟩
  | report status | exit status =>
      simp only [hplace] at h
      exact ⟨h.1, hknown h.2⟩
  | done result =>
      simp only [hplace] at h
      rcases h with ⟨hnone, hnone', hchild, hresult⟩ | ⟨status, hall, hstatus, hresult⟩
      · exact .inl ⟨hnone, hnone', hunborn hchild, hresult⟩
      · exact .inr ⟨status, hall, hknown hstatus, hresult⟩
  | annotation | echo | loop | scan | wait =>
      simp only [hplace] at h
      exact h

theorem annotation_events (command : Command) :
    (command.annotation.map fun annotation => Event.line (annotationLine annotation)).toList =
    ((command.annotation.map annotationLine).map Event.line).toList := by
  rw [Option.map_map]
  rfl

theorem inLoop_nextFd (s : State) (isStderr : Bool) (isSet : Bool → Bool) :
    (s.nextFd isStderr isSet).pc.inLoop = true := by
  cases isStderr <;> rfl

theorem moves_printed (hmoves : Moves command s a s' es) (h : Printed command s tr) :
    Printed command s' (tr ++ es) := by
  cases hmoves with
  | wrote => exact h.other rfl (.inl rfl) rfl rfl
  | closed => exact h.other rfl (.inl rfl) rfl rfl
  | ended hchild => exact h.other rfl (.inr hchild) rfl rfl
  | interrupted => rwa [List.append_nil]
  | forked hpc =>
      simp only [Printed, hpc] at h
      rw [List.append_nil]
      exact ⟨h.1, h.2.1⟩
  | forkFailed hpc =>
      simp only [Printed, hpc] at h
      rw [List.append_nil]
      exact .inl ⟨h.1, h.2.1, h.2.2, rfl⟩
  | turned hturns =>
      obtain ⟨hbefore, hafter⟩ := turns_inLoop hturns
      rw [printed_of_inLoop hbefore] at h
      rw [List.append_nil]
      exact (printed_of_inLoop hafter).mpr h
  | annotated hpc =>
      simp only [Printed, hpc] at h
      rw [annotation_events]
      constructor
      · rw [calls_append, h.1, calls_lines, List.nil_append]
      · rw [outputs_append, h.2, outputs_lines, List.nil_append]
  | echoed hpc =>
      simp only [Printed, hpc] at h
      refine (printed_of_inLoop rfl).mpr ?_
      rw [calls_append, outputs_append, h.1, h.2, header]
      cases command.echoCmdline with
      | false => exact (List.append_nil _).symm
      | true => exact (List.append_nil _).symm
  | @output isStderr isSet count hpc hpos hcount =>
      rw [printed_of_inLoop (by rw [hpc]; rfl)] at h
      refine (printed_of_inLoop (inLoop_nextFd s isStderr isSet)).mpr ?_
      rw [calls_append, outputs_append, h, List.append_assoc]
      rfl
  | @silent isStderr isSet answer failed hpc =>
      rw [printed_of_inLoop (by rw [hpc]; rfl)] at h
      rw [List.append_nil]
      exact (printed_of_inLoop (inLoop_nextFd s isStderr isSet)).mpr h
  | lost hpc =>
      rw [printed_of_inLoop (by rw [hpc]; rfl)] at h
      rw [List.append_nil]
      exact ⟨h, .inr rfl⟩
  | reaped hpc hchild =>
      rw [printed_of_inLoop (by rw [hpc]; rfl)] at h
      rw [List.append_nil]
      exact ⟨h, .inl ⟨_, hchild, rfl⟩⟩
  | @reported returnCode hpc =>
      simp only [Printed, hpc] at h
      refine ⟨?_, h.2⟩
      rw [calls_append, outputs_append, calls_lines, outputs_lines, h.1, List.append_nil]
      rfl
  | @exited returnCode hpc =>
      simp only [Printed, hpc] at h
      refine .inr ⟨returnCode, ?_, h.2, rfl⟩
      rw [calls_append, outputs_append, h.1]
      simp [calls, outputs, Event.call]

theorem reach_printed (h : Reach (executeProcess command) anything s tr) : Printed command s tr :=
  h.invariant (P := Printed command) (show Printed command .init [] from ⟨rfl, rfl, rfl⟩)
    fun _ _ _ _ _ _ hprinted _ hstep => moves_printed (step_moves hstep) hprinted

/-! ### Runs -/

theorem returnCode_of_signal (sig : Nat) (hsig : 0 < sig ∧ sig < 127) (core : Bool) :
    wIfSignaled (Ended.signalled sig hsig core).status = true := by
  cases core <;> simp [wIfSignaled, Ended.status] <;> omega

theorem returnCode_eq_zero {status : Nat} (hknown : s.Known status) (h : (resultOf status).returnCode = 0) :
    s.child = .ended (.exited 0) := by
  rw [resultOf] at h
  split_ifs at h with hsignaled
  rcases hknown with ⟨how, hended, rfl⟩ | rfl
  · cases how with
    | exited code =>
        have hlt := code.toNat_lt
        have hcode : code.toNat = 0 := by
          simp only [Ended.status, wExitStatus] at h
          omega
        obtain rfl : code = 0 := UInt8.toNat_inj.mp hcode
        exact hended
    | signalled sig hsig core => exact absurd (returnCode_of_signal sig hsig core) hsignaled
  · exact absurd rfl hsignaled

/-- The calls of a command and its result, in every run, as long as the sort keys do not run out. -/
theorem executeProcess_output (h : Reach (executeProcess command) anything s tr) (hsortKey : s.sortKey < 2 ^ 31) :
    (keys (calls tr)).Pairwise (· < ·) ∧
    (∀ isStderr, received isStderr tr ++ s.pipe isStderr = wrote isStderr tr) ∧
    ∀ result, s.pc = .done result →
      (calls tr = [] ∧ s.child = .unborn ∧ result = ⟨1, false⟩) ∨
      (∃ status, calls tr = header command ++ outputs tr ++ footer command status ++ [.jobExit] ∧
      result = resultOf status ∧
        (status = 1 ∨ ∃ how, s.child = .ended how ∧ status = how.status)) ∧
      (result.returnCode = 0 → s.child = .ended (.exited 0)) := by
  refine ⟨(reach_keyed h hsortKey).increasing, reach_flow h, fun result hpc => ?_⟩
  have hprinted := reach_printed h
  simp only [Printed, hpc] at hprinted
  rcases hprinted with ⟨hnone, -, hunborn, hresult⟩ | ⟨status, hall, hknown, rfl⟩
  · exact .inl ⟨hnone, hunborn, hresult⟩
  · exact .inr ⟨⟨status, hall, rfl, hknown.symm⟩, returnCode_eq_zero hknown⟩

def Pc.result : Pc → Option ExecResult
  | .done result => some result
  | _ => none

theorem Pc.eq_done {pc : Pc} {result : ExecResult} (h : pc.result = some result) : pc = .done result := by
  cases pc with
  | done result' =>
      cases h
      rfl
  | fork | annotation | echo | loop | scan | wait | report | exit => cases h

/-- A command that writes two letters and exits at once: one of them stays in the pipe. -/
theorem executeProcess_output_cut :
    ∃ (s : State) (tr : List Event), s.pc = .done ⟨0, false⟩ ∧ wrote false tr = [104, 105] ∧ received false tr = [104] ∧
    received false tr ++ s.pipe false = wrote false tr ∧ s.child = .ended (.exited 0) := by
  have hexec : (exec (executeProcess ⟨.run, false, some .run⟩) [.run .ok, .run .ok, .run .ok, .write false [104, 105],
      .run (.selected fun _ => true), .run (.bytes 1), .run .again, .finish (.exited 0), .run .ok, .run .ok, .run .ok] (.init, [])).map
      (fun c => (c.1.pc.result, c.1.sortKey, wrote false c.2, received false c.2)) =
        some (some ⟨0, false⟩, 2, [104, 105], [104]) := by
    decide +kernel
  obtain ⟨s, tr, hreach, hview⟩ := exists_reach_of_exec (fun _ _ _ => trivial) hexec
  simp only [Prod.mk.injEq] at hview
  obtain ⟨hresult, hsortKey, hwrote, hreceived⟩ := hview
  have hpc := Pc.eq_done hresult
  obtain ⟨-, hflow, hdone⟩ := executeProcess_output hreach (by omega)
  refine ⟨s, tr, hpc, hwrote, hreceived, hflow false, ?_⟩
  rcases hdone _ hpc with ⟨-, -, hresult⟩ | ⟨-, hexited⟩
  · cases hresult
  · exact hexited rfl

/-! ### It returns -/

/-- How many steps are left at most when the command has ended. -/
def Pc.left : Pc → Nat
  | .fork => 9
  | Pc.annotation => 8
  | .echo => 7
  | .loop => 6
  | .scan false _ => 5
  | .scan true _ => 4
  | .wait => 3
  | .report _ => 2
  | .exit _ => 1
  | .done _ => 0

/-- The steps of `ExecuteProcess`, and those among them in which a call fails. -/
def Action.runs : Action → Bool
  | .run _ => true
  | _ => false

def Action.fails : Action → Bool
  | .run .fails => true
  | _ => false

theorem left_nextFd (s : State) (isStderr : Bool) (isSet : Bool → Bool) :
    (s.nextFd isStderr isSet).pc.left < (Pc.scan isStderr isSet).left := by
  cases isStderr <;> exact Nat.lt_succ_self _

/-- The command has been started and has ended. -/
structure HasEnded (s : State) : Prop where
  started : s.pc ≠ .fork
  ended : ∃ how, s.child = .ended how

theorem HasEnded.goto (h : HasEnded s) {pc : Pc} (hpc : pc ≠ .fork) : HasEnded (s.goto pc) := ⟨hpc, h.ended⟩

theorem nextFd_ne_fork (s : State) (isStderr : Bool) (isSet : Bool → Bool) : (s.nextFd isStderr isSet).pc ≠ .fork := by
  cases isStderr <;> simp [State.nextFd, State.goto]

/-- After the end of the command a step leads on, but for a `select` that is interrupted. -/
theorem moves_left (hmoves : Moves command s a s' es) (hended : HasEnded s) :
    HasEnded s' ∧ s'.pc.left + (if a.runs then 1 else 0) ≤ s.pc.left + (if a.fails then 1 else 0) := by
  obtain ⟨how, hchild⟩ := hended.ended
  cases hmoves with
  | wrote | closed => exact ⟨⟨hended.started, hended.ended⟩, Nat.le_refl _⟩
  | ended hrunning => cases hchild.symm.trans hrunning
  | forked hpc | forkFailed hpc => exact absurd hpc hended.started
  | interrupted => exact ⟨hended, Nat.le_refl _⟩
  | turned hturns =>
      cases hturns with
      | allRead hpc | selected hpc =>
          exact ⟨hended.goto (by simp), by rw [hpc]; simp [State.goto, Pc.left, Action.runs, Action.fails]⟩
      | @skipped isStderr isSet hpc =>
          have hleft := left_nextFd s isStderr isSet
          refine ⟨⟨nextFd_ne_fork s isStderr isSet, hended.ended⟩, ?_⟩
          rw [hpc]
          exact hleft
      | polled hpc hrunning => cases hchild.symm.trans hrunning
  | @output isStderr isSet count hpc hpos hcount =>
      have hleft := left_nextFd s isStderr isSet
      refine ⟨⟨nextFd_ne_fork s isStderr isSet, hended.ended⟩, ?_⟩
      rw [hpc]
      exact hleft
  | @silent isStderr isSet answer failed hpc =>
      have hleft := left_nextFd s isStderr isSet
      refine ⟨⟨nextFd_ne_fork s isStderr isSet, hended.ended⟩, Nat.le_trans ?_ (Nat.le_add_right _ _)⟩
      rw [hpc]
      exact hleft
  | annotated hpc | echoed hpc | lost hpc | reaped hpc hchild | reported hpc | exited hpc =>
      exact ⟨hended.goto (by simp), by rw [hpc]; simp [State.goto, Pc.left, Action.runs, Action.fails]⟩

theorem exec_left {as : List Action} {tr' : List Event} (hended : HasEnded s)
    (hexec : exec (executeProcess command) as (s, tr) = some (s', tr')) :
    as.countP Action.runs ≤ s.pc.left + as.countP Action.fails := by
  induction as generalizing s tr with
  | nil => exact Nat.zero_le _
  | cons a as ih =>
      rw [exec, Option.bind_eq_some_iff] at hexec
      obtain ⟨⟨mid, es⟩, hstep, hrest⟩ := hexec
      obtain ⟨hmid, hleft⟩ := moves_left (step_moves hstep) hended
      have hcount := ih hmid hrest
      rw [List.countP_cons, List.countP_cons]
      omega

/-- The operating system has an answer to every call, or the function has returned. -/
theorem exists_answer (hended : HasEnded s) :
    (∃ result, s.pc = .done result) ∨ ∃ answer s' es, s.run command answer = some (s', es) := by
  obtain ⟨how, hchild⟩ := hended.ended
  cases hpc : s.pc with
  | fork => exact absurd hpc hended.started
  | annotation | echo | report | exit =>
      refine .inr ⟨.ok, ?_⟩
      simp only [State.run, hpc]
      exact ⟨_, _, rfl⟩
  | loop =>
      by_cases hcount : s.rfdCount > 0
      · refine .inr ⟨.selected fun _ => false, ?_⟩
        simp only [State.run, hpc, if_pos hcount]
        exact ⟨_, _, rfl⟩
      · refine .inr ⟨.ok, ?_⟩
        simp only [State.run, hpc, if_neg hcount]
        exact ⟨_, _, rfl⟩
  | scan isStderr isSet =>
      by_cases hset : s.rfds isStderr ∧ isSet isStderr
      · refine .inr ⟨.again, ?_⟩
        simp only [State.run, hpc, if_pos hset]
        exact ⟨_, _, rfl⟩
      · refine .inr ⟨.ok, ?_⟩
        simp only [State.run, hpc, if_neg hset]
        exact ⟨_, _, rfl⟩
  | wait =>
      refine .inr ⟨.ok, ?_⟩
      simp only [State.run, hpc, hchild]
      exact ⟨_, _, rfl⟩
  | done result => exact .inl ⟨result, rfl⟩

theorem hasEnded_of_reach (h : Reach (executeProcess command) anything s tr) {how : Ended}
    (hchild : s.child = .ended how) : HasEnded s := by
  refine ⟨fun hpc => ?_, how, hchild⟩
  have hprinted := reach_printed h
  simp only [Printed, hpc] at hprinted
  cases hchild.symm.trans hprinted.2.2

/-- A command that has ended does not keep `ExecuteProcess`, whoever still holds the pipes open and writes to
them: there is a next step until it has returned, and it returns after nine steps, not counting the calls that
fail. -/
theorem executeProcess_returns (h : Reach (executeProcess command) anything s tr) {how : Ended}
    (hchild : s.child = .ended how) :
    ((∃ result, s.pc = .done result) ∨ ∃ answer s' es, s.run command answer = some (s', es)) ∧
    ∀ as s' tr', exec (executeProcess command) as (s, tr) = some
    (s', tr') → as.countP Action.runs ≤ 9 + as.countP Action.fails := by
  have hended := hasEnded_of_reach h hchild
  refine ⟨exists_answer hended, fun as s' tr' hexec => ?_⟩
  have hcount := exec_left hended hexec
  have hleft : s.pc.left ≤ 9 := by
    cases s.pc with
    | scan isStderr isSet => cases isStderr <;> simp [Pc.left]
    | fork | annotation | echo | loop | wait | report | exit | done => simp [Pc.left]
  omega

/-- A command that leaves a process behind, which holds on to the pipes. -/
theorem executeProcess_returns_background : ∃ s : State, s.child = .ended (.exited 0) ∧ s.writers false = true ∧
    ((∃ result, s.pc = .done result) ∨ ∃ answer s' es, s.run ⟨.run, false, none⟩ answer = some (s', es)) := by
  have hexec : (exec (executeProcess ⟨.run, false, none⟩) [.run .ok, .run .ok, .run .ok, .finish (.exited 0)]
    (.init, [])).map
      (fun c => (c.1.child, c.1.writers false)) = some (.ended (.exited 0), true) := by
    decide +kernel
  obtain ⟨s, tr, hreach, hview⟩ := exists_reach_of_exec (fun _ _ _ => trivial) hexec
  simp only [Prod.mk.injEq] at hview
  exact ⟨s, hview.1, hview.2, (executeProcess_returns hreach hview.1).1⟩

end Tundra.ExecUnix
