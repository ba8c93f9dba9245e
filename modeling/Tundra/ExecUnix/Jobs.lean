import Tundra.ExecUnix.Output
import Tundra.Terminal.Apart
import Tundra.Terminal.Calls

/-!
# Jobs that run commands

The terminal and any number of jobs, each of which runs one command after another with `ExecuteProcess`. A job
that is in a call of the terminal waits for it to return; the processes go on meanwhile.
-/

namespace Tundra.ExecUnix

open Transition Terminal

def Call.action (jobId woken : Nat) : Call → Terminal.Action
  | .emit sortKey isStderr data => .emit jobId sortKey isStderr data woken
  | .jobExit => .exit jobId woken

/-- The terminal, and the command that each job runs or has run last. -/
structure Jobs where
  terminal : Terminal.State
  command : Nat → Command
  exec : Nat → State

inductive JobsAction
  | start (jobId : Nat) (command : Command)
  | job (jobId : Nat) (a : Action) (woken : Nat)
  /-- A call of the terminal goes on. -/
  | terminal (a : Terminal.Action)

inductive JobsEvent
  | started (jobId : Nat)
  | exec (jobId : Nat) (e : Event)
  | terminal (e : TerminalEvent)

/-- A job whose last command has returned. -/
def State.idle (s : State) : Bool :=
  match s.pc with
  | .done _ => true
  | _ => false

namespace Jobs

/-- No job has run a command: it is as if the last one could not be started. -/
def init :
    Jobs := ⟨⟨.init, fun _ => .idle⟩, fun _ => ⟨.empty, false, none⟩, fun _ => State.init.goto (.done ⟨1, false⟩)⟩

/-- A job has made a step with these events, and the terminal has done what it was called for. -/
def leave (s : Jobs) (jobId : Nat) (exec : State) (es : List Event) (called : Terminal.State × List TerminalEvent) :
    Jobs × List JobsEvent :=
  ({ s with terminal := called.1, exec := Function.update s.exec jobId exec },
    es.map (.exec jobId) ++ called.2.map .terminal)

def step (qsort : Qsort) (s : Jobs) : JobsAction → Option (Jobs × List JobsEvent)
  | .start jobId command =>
      if (s.exec jobId).idle ∧ s.terminal.phase jobId = .idle then
        some ({ s with command := Function.update s.command jobId command, exec := Function.update s.exec jobId .init }, [.started jobId])
      else none
  | .job jobId a woken =>
      if a.runs ∧ s.terminal.phase jobId ≠ .idle then none
      else
        ((s.exec jobId).step (s.command jobId) a).bind fun (exec, es) =>
          match calls es with
          | [] => some (s.leave jobId exec es (s.terminal, []))
          | [c] => (s.terminal.step qsort (c.action jobId woken)).map (s.leave jobId exec es)
          | _ => none
  | .terminal a =>
      if continues a then (s.terminal.step qsort a).map
        fun (terminal, es) => ({ s with terminal := terminal }, es.map .terminal) else none

end Jobs

def jobs (qsort : Qsort) : Transition.System Jobs JobsAction JobsEvent where
  init := .init
  step := Jobs.step qsort

/-! ### Traces -/

def terminalEvents (tr : List JobsEvent) : List TerminalEvent :=
  tr.filterMap fun
    | .terminal e => some e
    | _ => none

/-- What can be seen of a job and its processes. -/
def execEvents (jobId : Nat) (tr : List JobsEvent) : List Event :=
  tr.filterMap fun
    | .exec j e => if j = jobId then some e else none
    | _ => none

/-- A trace cut where a job has started a command last. -/
def cutStep (jobId : Nat) (cut : List JobsEvent × List JobsEvent) : JobsEvent → List JobsEvent × List JobsEvent
  | .started j => if j = jobId then (cut.1 ++ cut.2 ++ [.started j], []) else (cut.1, cut.2 ++ [.started j])
  | .exec j e => (cut.1, cut.2 ++ [.exec j e])
  | .terminal e => (cut.1, cut.2 ++ [.terminal e])

def cut (jobId : Nat) (tr : List JobsEvent) : List JobsEvent × List JobsEvent := tr.foldl (cutStep jobId) ([], [])

/-- What has happened since a job has started a command last. -/
def since (jobId : Nat) (tr : List JobsEvent) : List JobsEvent := (cut jobId tr).2

@[simp] theorem terminalEvents_append (tr es : List JobsEvent) :
    terminalEvents (tr ++ es) = terminalEvents tr ++ terminalEvents es :=
  List.filterMap_append

@[simp] theorem execEvents_append (jobId : Nat) (tr es : List JobsEvent) :
    execEvents jobId (tr ++ es) = execEvents jobId tr ++ execEvents jobId es :=
  List.filterMap_append

@[simp] theorem terminalEvents_terminal (es : List TerminalEvent) : terminalEvents (es.map .terminal) = es := by
  rw [terminalEvents, List.filterMap_map]
  exact List.filterMap_some

@[simp] theorem terminalEvents_exec (jobId : Nat) (es : List Event) : terminalEvents (es.map (.exec jobId)) = [] := by
  rw [terminalEvents, List.filterMap_map]
  exact List.filterMap_none es

@[simp] theorem execEvents_terminal (jobId : Nat) (es : List TerminalEvent) :
    execEvents jobId (es.map .terminal) = [] := by
  rw [execEvents, List.filterMap_map]
  exact List.filterMap_none es

theorem execEvents_exec (jobId : Nat) (es : List Event) : execEvents jobId (es.map (.exec jobId)) = es := by
  rw [execEvents, List.filterMap_map]
  refine (List.filterMap_congr fun e _ => ?_).trans List.filterMap_some
  exact if_pos rfl

theorem execEvents_exec_of_ne {j jobId : Nat} (hj : j ≠ jobId) (es : List Event) :
    execEvents j (es.map (.exec jobId)) = [] := by
  rw [execEvents, List.filterMap_map]
  refine (List.filterMap_congr fun e _ => ?_).trans (List.filterMap_none es)
  exact if_neg (Ne.symm hj)

theorem cut_append (jobId : Nat) (tr es : List JobsEvent) :
    cut jobId (tr ++ es) = es.foldl (cutStep jobId) (cut jobId tr) := List.foldl_append

theorem cut_fst_append_snd (jobId : Nat) (tr : List JobsEvent) : (cut jobId tr).1 ++ (cut jobId tr).2 = tr := by
  induction tr using List.reverseRecOn with
  | nil => rfl
  | append_singleton tr e ih =>
      rw [cut_append, List.foldl_cons, List.foldl_nil]
      cases e with
      | started j =>
          rw [cutStep]
          split_ifs
          · rw [List.append_nil, ih]
          · rw [← List.append_assoc, ih]
      | exec j e | terminal e => rw [cutStep, ← List.append_assoc, ih]

theorem cut_append_of_forall {jobId : Nat} {tr es : List JobsEvent} (h : ∀ e ∈ es, e ≠ .started jobId) :
    cut jobId (tr ++ es) = ((cut jobId tr).1, since jobId tr ++ es) := by
  induction es using List.reverseRecOn with
  | nil => rw [List.append_nil, since, List.append_nil]
  | append_singleton es e ih =>
      have he := h e (List.mem_append_right _ (List.mem_singleton_self e))
      rw [← List.append_assoc, cut_append, List.foldl_cons, List.foldl_nil,
        ih fun e' he' => h e' (List.mem_append_left _ he')]
      cases e with
      | started j =>
          rw [cutStep, if_neg (fun hj => he (congrArg _ hj)), List.append_assoc]
      | exec j e | terminal e => rw [cutStep, List.append_assoc]

theorem cut_start (jobId : Nat) (tr : List JobsEvent) :
    cut jobId (tr ++ [.started jobId]) = (tr ++ [.started jobId], []) := by
  rw [cut_append, List.foldl_cons, List.foldl_nil, cutStep, if_pos rfl, cut_fst_append_snd]

end Tundra.ExecUnix
