import Tundra.ExecUnix.Jobs

/-!
# The output of commands that run at the same time

What `ExecuteProcess` asks of the terminal is what the terminal needs to keep the output of a job in order. So
in every run of any number of jobs, whatever the commands do and in whatever order the threads get on, what was
written for a job between the start of a command and the return of its last call are the lines and the output of
the command, as they came out of the pipes. What is left out are commands that print a line in front of their
output and one behind it, because the sort keys of these two are too far apart.
-/

namespace Tundra.ExecUnix

open Transition Terminal

def Call.size : Call → Nat
  | .emit _ _ data => data.length
  | .jobExit => 0

/-- The least sort key that a command uses. -/
def lowKey (command : Command) : Int := if header command = [] then 0 else -200

/-- The pieces that are emitted by some calls. -/
def pieces (cs : List Call) : List (Bool × List UInt8) :=
  cs.filterMap fun
    | .emit _ isStderr data => some (isStderr, data)
    | .jobExit => none

/-- A start of a command whose lines fit into a buffer each, a step of a command that has not read too often,
and that has no line behind its output when it has one in front of it. -/
def Modest (s : Jobs) : JobsAction → Prop
  | .start _ command => ∀ c ∈ header command, c.size ≤ kLineBufSize - 1
  | .job jobId _ _ => (s.exec jobId).sortKey < 2 ^ 31 - 201 ∧ ∀ status, (s.exec jobId).pc = .report status →
      ∀ c ∈ footer (s.command jobId) status, c.size ≤ kLineBufSize - 1 ∧ header (s.command jobId) = []
  | .terminal _ => True

section Steps

variable {command : Command} {s s' : State} {a : Action} {tr es : List Event}

/-- The calls in a step: none, one of `TerminalIoEmit`, or the last one. -/
inductive Asks (a : Action) (s s' : State) : List Call → Prop
  | nothing (h : s'.idle = s.idle ∨ s.pc = .fork ∧ a.runs = true) : Asks a s s' []
  | emit {sortKey : Int32} {isStderr : Bool} {data : List UInt8} (hbefore : s.idle = false) (hafter : s'.idle = false) :
      Asks a s s' [.emit sortKey isStderr data]
  | exit (hbefore : s.idle = false) (hafter : s'.idle = true) : Asks a s s' [.jobExit]

theorem idle_of_inLoop (h : s.pc.inLoop = true) : s.idle = false := by
  rw [State.idle]
  cases hpc : s.pc with
  | fork | annotation | echo | loop | scan | wait | report | exit => rfl
  | done result =>
      rw [hpc] at h
      cases h

/-- A line, or none, in a place where the command has not returned. -/
theorem Asks.line {line : Option Call}
    (hline : ∀ c, line = some c → ∃ sortKey text, c = terminalIoPrintf sortKey text) (hbefore : s.idle = false)
    (hafter : s'.idle = false) : Asks a s s' line.toList := by
  cases line with
  | none => exact .nothing (.inl (hafter.trans hbefore.symm))
  | some c =>
      obtain ⟨sortKey, text, rfl⟩ := hline c rfl
      exact .emit hbefore hafter

theorem moves_asks (hmoves : Moves command s a s' es) : Asks a s s' (calls es) := by
  cases hmoves with
  | wrote | closed | ended | interrupted => exact .nothing (.inl rfl)
  | forked hpc | forkFailed hpc => exact .nothing (.inr ⟨hpc, rfl⟩)
  | lost hpc | reaped hpc hchild => exact .nothing (.inl (by simp [State.idle, hpc, State.goto]))
  | turned hturns =>
      obtain ⟨hbefore, hafter⟩ := turns_inLoop hturns
      exact .nothing (.inl ((idle_of_inLoop hafter).trans (idle_of_inLoop hbefore).symm))
  | annotated hpc =>
      rw [annotation_events, calls_lines]
      refine .line (fun c hc => ?_) (by simp [State.idle, hpc]) rfl
      obtain ⟨text, -, rfl⟩ := Option.map_eq_some_iff.mp hc
      exact ⟨_, _, rfl⟩
  | echoed hpc =>
      have hbefore : s.idle = false := by simp [State.idle, hpc]
      split_ifs
      · exact .emit hbefore rfl
      · exact .nothing (.inl hbefore.symm)
  | @output isStderr isSet count hpc hpos hcount =>
      exact .emit (by simp [State.idle, hpc]) (idle_of_inLoop (inLoop_nextFd s isStderr isSet))
  | @silent isStderr isSet answer failed hpc =>
      exact .nothing (.inl ((idle_of_inLoop (inLoop_nextFd s isStderr isSet)).trans (by simp [State.idle, hpc])))
  | @reported returnCode hpc =>
      rw [calls_lines]
      refine .line (fun c hc => ?_) (by simp [State.idle, hpc]) rfl
      obtain ⟨text, rfl⟩ := endLine_eq_some hc
      exact ⟨_, _, rfl⟩
  | exited hpc => exact .exit (by simp [State.idle, hpc]) rfl

/-- The lines of a step: the first ones, one from a pipe, or the last one. -/
inductive Says (command : Command) (s : State) : List Call → Prop
  | nothing : Says command s []
  | header {c : Call} (hc : c ∈ header command)
      (hkey : ∃ text, c = terminalIoPrintf (-200) text ∨ c = terminalIoPrintf (-199) text) : Says command s [c]
  | output {isStderr : Bool} {data : List UInt8} (hdata : data.length ≤ kLineBufSize - 1) :
      Says command s [.emit (Int32.ofNat s.sortKey) isStderr data]
  | footer {status : Nat} {text : List UInt8} (hpc : s.pc = .report status)
      (hc : terminalIoPrintf Int32.maxValue text ∈ footer command status) :
      Says command s [terminalIoPrintf Int32.maxValue text]
  | exit : Says command s [.jobExit]

theorem moves_said (hmoves : Moves command s a s' es) : Says command s (calls es) := by
  cases hmoves with
  | wrote | closed | ended | interrupted | forked | forkFailed | lost | reaped | turned | silent => exact .nothing
  | annotated hpc =>
      rw [annotation_events, calls_lines]
      cases hannotation : command.annotation with
      | none => exact .nothing
      | some annotation => exact .header (by simp [header, hannotation]) ⟨_, .inl rfl⟩
  | echoed hpc =>
      split_ifs with hecho
      · exact .header (by simp [header, hecho]) ⟨_, .inr rfl⟩
      · exact .nothing
  | @output isStderr isSet count hpc hpos hcount =>
      refine .output ?_
      rw [List.length_take]
      exact Nat.le_trans (Nat.min_le_left _ _) hcount
  | @reported returnCode hpc =>
      rw [calls_lines]
      cases hline : endLine command returnCode with
      | none => exact .nothing
      | some line =>
          obtain ⟨text, rfl⟩ := endLine_eq_some hline
          exact .footer hpc (by simp [footer, hline])
  | exited hpc => exact .exit

/-- No call has a key below the least one of the command. -/
theorem says_low {cs : List Call} (h : Says command s cs) (hsortKey : s.sortKey < 2 ^ 31) :
    ∀ key ∈ keys cs, lowKey command ≤ key.toInt := by
  cases h with
  | nothing | exit => exact fun key hkey => absurd hkey List.not_mem_nil
  | @header c hc hkey =>
      have hlow : lowKey command = -200 := if_neg (List.ne_nil_of_mem hc)
      obtain ⟨text, rfl | rfl⟩ := hkey
      · rw [hlow]
        exact List.forall_mem_singleton.mpr (by decide)
      · rw [hlow]
        exact List.forall_mem_singleton.mpr (by decide)
  | output hdata =>
      have hlow : lowKey command ≤ 0 := by rw [lowKey]; split_ifs <;> omega
      have hkey : (Int32.ofNat s.sortKey).toInt = s.sortKey := Int32.toInt_ofNat_of_lt hsortKey
      refine List.forall_mem_singleton.mpr ?_
      omega
  | footer hpc hc =>
      have hlow : lowKey command ≤ 0 := by rw [lowKey]; split_ifs <;> omega
      have hkey : Int32.maxValue.toInt = 2 ^ 31 - 1 := by decide
      refine List.forall_mem_singleton.mpr ?_
      omega

/-- The keys of a command are never too far apart. -/
theorem says_near {cs : List Call} (h : Says command s cs) (hsortKey : s.sortKey < 2 ^ 31 - 201)
    (hfooter : ∀ status, s.pc = .report status → ∀ c ∈ footer command status, header command = []) {low : Int}
    (hlow : lowKey command ≤ low) :
    ∀ key ∈ keys cs, key.toInt - low < 2 ^ 31 := by
  have hleast : -200 ≤ lowKey command := by rw [lowKey]; split_ifs <;> omega
  cases h with
  | nothing | exit => exact fun key hkey => absurd hkey List.not_mem_nil
  | @header c hc hkey =>
      have hkeys : (-200 : Int32).toInt = -200 ∧ (-199 : Int32).toInt = -199 := by decide
      obtain ⟨text, rfl | rfl⟩ := hkey
      · refine List.forall_mem_singleton.mpr ?_
        omega
      · refine List.forall_mem_singleton.mpr ?_
        omega
  | output hdata =>
      have hkey : (Int32.ofNat s.sortKey).toInt = s.sortKey := Int32.toInt_ofNat_of_lt (by omega)
      refine List.forall_mem_singleton.mpr ?_
      omega
  | footer hpc hc =>
      have hzero : lowKey command = 0 := if_pos (hfooter _ hpc _ hc)
      have hkey : Int32.maxValue.toInt = 2 ^ 31 - 1 := by decide
      refine List.forall_mem_singleton.mpr ?_
      omega

theorem says_size {cs : List Call} (h : Says command s cs)
    (hheader : ∀ c ∈ header command, c.size ≤ kLineBufSize - 1)
    (hfooter : ∀ status, s.pc = .report status → ∀ c ∈ footer command status, c.size ≤ kLineBufSize - 1) :
    ∀ c ∈ cs, c.size ≤ kLineBufSize - 1 := by
  cases h with
  | nothing => exact fun c hc => absurd hc List.not_mem_nil
  | exit => exact List.forall_mem_singleton.mpr (Nat.zero_le _)
  | header hc hkey => exact List.forall_mem_singleton.mpr (hheader _ hc)
  | output hdata => exact List.forall_mem_singleton.mpr hdata
  | footer hpc hc => exact List.forall_mem_singleton.mpr (hfooter _ hpc _ hc)

theorem reach_low (h : Reach (executeProcess command) anything s tr) (hsortKey : s.sortKey < 2 ^ 31) :
    ∀ key ∈ keys (calls tr), lowKey command ≤ key.toInt := by
  refine h.invariant (P := fun s tr => s.sortKey < 2 ^ 31 → ∀ key ∈ keys (calls tr), lowKey command ≤ key.toInt)
    (fun _ key hkey => absurd hkey List.not_mem_nil) (fun s tr a s' es _ hlow _ hstep hsortKey => ?_) hsortKey
  have hmoves := step_moves hstep
  have hbefore : s.sortKey < 2 ^ 31 := Nat.lt_of_le_of_lt (sortKey_mono hmoves) hsortKey
  rw [calls_append, keys_append]
  exact List.forall_mem_append.mpr ⟨hlow hbefore, says_low (moves_said hmoves) hbefore⟩

theorem sortKey_succ (hmoves : Moves command s a s' es) : s'.sortKey ≤ s.sortKey + 1 := by
  cases hmoves with
  | output | silent => exact Nat.le_refl _
  | wrote | closed | ended | forked | forkFailed | annotated | echoed | interrupted | turned | lost | reaped | reported | exited =>
      exact Nat.le_succ _

end Steps

/-! ### Together -/

variable {qsort : Qsort} {s s' : Jobs} {a : JobsAction} {tr evs : List JobsEvent} {j : Nat}

theorem increases_of_quiet (before : List TerminalEvent) (e : TerminalEvent) (h : e.isEmit = false) :
    Increases before e := by
  cases e with
  | emit => cases h
  | take | write | release | exited => trivial

theorem fits_of_quiet (before : List TerminalEvent) (e : TerminalEvent) (h : e.isEmit = false) :
    Terminal.Fits before e := by
  cases e with
  | emit => cases h
  | take | write | release | exited => trivial

/-- What is known of a job along a run. -/
structure Runs (j : Nat) (s : Jobs) (tr : List JobsEvent) : Prop where
  run : Reach (executeProcess (s.command j)) anything (s.exec j) (execEvents j (since j tr))
  short : ∀ c ∈ header (s.command j), c.size ≤ kLineBufSize - 1
  live : (s.exec j).idle = false → (s.terminal.phase j).leaving = false ∧
    Terminal.keys j (terminalEvents tr) = keys (calls (execEvents j (since j tr)))
  returned : (s.exec j).idle = true →
    (s.terminal.phase j).leaving = true ∨ (s.terminal.phase j = .idle ∧ Terminal.keys j (terminalEvents tr) = [])
  emitted : emits j (terminalEvents (since j tr)) = pieces (calls (execEvents j (since j tr)))
  past : bytesOf (writes j (terminalEvents (cut j tr).1)) = bytesOf (emits j (terminalEvents (cut j tr).1))

/-- A step of the terminal that the job does not call for. -/
theorem Runs.goes (h : Runs j s tr) (hexec : s'.exec j = s.exec j) (hcommand : s'.command j = s.command j)
    (hgoes : Goes j s.terminal s'.terminal (terminalEvents tr) (terminalEvents evs))
    (hquiet : emits j (terminalEvents evs) = []) (hevents : execEvents j evs = [])
    (hstart : ∀ e ∈ evs, e ≠ .started j) : Runs j s' (tr ++ evs) := by
  have hcut := @cut_append_of_forall j tr evs hstart
  have hsince : since j (tr ++ evs) = since j tr ++ evs := congrArg Prod.snd hcut
  have hrun : execEvents j (since j (tr ++ evs)) = execEvents j (since j tr) := by
    rw [hsince, execEvents_append, hevents, List.append_nil]
  constructor
  · rw [hrun, hcommand, hexec]
    exact h.run
  · rw [hcommand]
    exact h.short
  · intro hidle
    rw [hexec] at hidle
    obtain ⟨hleaving, hkeys⟩ := h.live hidle
    rw [hrun, terminalEvents_append]
    cases hgoes with
    | on hleaving' hkeys' hidle' => exact ⟨hleaving'.trans hleaving, hkeys'.trans hkeys⟩
    | back hbefore hafter hkeys' hqueue =>
        rw [hbefore] at hleaving
        cases hleaving
  · intro hidle
    rw [hexec] at hidle
    rw [terminalEvents_append]
    cases hgoes with
    | on hleaving' hkeys' hidle' =>
        rcases h.returned hidle with hleaving | ⟨hphase, hkeys⟩
        · exact .inl (hleaving'.trans hleaving)
        · exact .inr ⟨(hidle' hphase).1, hkeys'.trans hkeys⟩
    | back hbefore hafter hkeys' hqueue => exact .inr ⟨hafter, hkeys'⟩
  · rw [hrun, hsince, terminalEvents_append, emits_append, hquiet, List.append_nil]
    exact h.emitted
  · rw [hcut]
    exact h.past

/-- What is known along a run. -/
structure Together (qsort : Qsort) (s : Jobs) (tr : List JobsEvent) : Prop where
  reach : Reach (terminal qsort) anything s.terminal (terminalEvents tr)
  increase : KeysIncrease (terminalEvents tr)
  fits : Along Terminal.Fits [] (terminalEvents tr)
  runs : ∀ j, Runs j s tr

/-- When a command has returned, and its last call with it, everything of its job is written. -/
theorem Together.written (hsorts : Sorts qsort) (h : Together qsort s tr) (hidle : (s.exec j).idle = true)
    (hphase : s.terminal.phase j = .idle) :
    bytesOf (writes j (terminalEvents tr)) = bytesOf (emits j (terminalEvents tr)) := by
  obtain ⟨hreach, hapart⟩ := reach_apart h.reach h.increase h.fits
  have hkeys : Terminal.keys j (terminalEvents tr) = [] := by
    rcases (h.runs j).returned hidle with hleaving | ⟨-, hkeys⟩
    · rw [hphase] at hleaving
      cases hleaving
    · exact hkeys
  have hqueue : s.terminal.lines.queuedOf j = [] := by
    refine List.eq_nil_iff_forall_not_mem.mpr fun line hline => ?_
    have hkey := (hapart j).1.queued line hline
    rw [hkeys] at hkey
    cases hkey
  obtain ⟨pieces, hbytes, order, horder, -, rfl⟩ := (reach_inOrder hsorts hreach h.increase j).2
  rw [hqueue] at horder
  rw [hbytes, horder.eq_nil, hphase, List.map_nil, List.append_nil]
  exact (List.append_nil _).symm

theorem Together.start (hsorts : Sorts qsort) (h : Together qsort s tr) {command : Command}
    (hidle : (s.exec j).idle = true) (hphase : s.terminal.phase j = .idle)
    (hshort : ∀ c ∈ header command, c.size ≤ kLineBufSize - 1) :
    Together qsort { s with command := Function.update s.command j command, exec := Function.update s.exec j .init }
    (tr ++ [.started j]) := by
  have hevents : terminalEvents (tr ++ [.started j]) = terminalEvents tr := by
    rw [terminalEvents_append]
    exact List.append_nil _
  have hwritten := h.written hsorts hidle hphase
  refine ⟨hevents.symm ▸ h.reach, hevents.symm ▸ h.increase, hevents.symm ▸ h.fits, fun k => ?_⟩
  by_cases hk : k = j
  · subst hk
    have hcut := cut_start k tr
    have hsince : since k (tr ++ [.started k]) = [] := congrArg Prod.snd hcut
    have hkeys : Terminal.keys k (terminalEvents tr) = [] := by
      rcases (h.runs k).returned hidle with hleaving | ⟨-, hkeys⟩
      · rw [hphase] at hleaving
        cases hleaving
      · exact hkeys
    constructor
    · dsimp only
      rw [hsince, Function.update_self, Function.update_self]
      exact .init
    · dsimp only
      rw [Function.update_self]
      exact hshort
    · intro _
      rw [hevents, hsince, hkeys, hphase]
      exact ⟨rfl, rfl⟩
    · intro hinit
      dsimp only at hinit
      rw [Function.update_self] at hinit
      cases hinit
    · rw [hsince]
      rfl
    · rw [hcut, hevents]
      exact hwritten
  · refine (h.runs k).goes (Function.update_of_ne hk ..) (Function.update_of_ne hk ..)
      (.on rfl ?_ fun hidle => ⟨hidle, .refl _⟩) rfl rfl ?_
    · rw [← terminalEvents_append, hevents]
    · exact List.forall_mem_singleton.mpr (by simpa using Ne.symm hk)

theorem Together.goOn (h : Together qsort s tr) {b : Terminal.Action} {terminal' : Terminal.State}
    {es : List TerminalEvent} (hcontinues : continues b = true)
    (hstep : (terminal qsort).step s.terminal b = some (terminal', es)) :
    Together qsort { s with terminal := terminal' } (tr ++ es.map .terminal) := by
  have hpartition := reach_partition h.reach
  have howned := reach_owned h.reach
  have hmoves := Terminal.step_moves hpartition hstep
  have hevents : terminalEvents (tr ++ es.map .terminal) = terminalEvents tr ++ es := by
    rw [terminalEvents_append, terminalEvents_terminal]
  have hquiet := moves_quiet hmoves (by rintro jobId sortKey isStderr data woken rfl; cases hcontinues)
  constructor
  · rw [hevents]
    exact h.reach.step trivial hstep
  · rw [KeysIncrease, hevents]
    exact along_append.mpr ⟨h.increase, along_of_quiet increases_of_quiet hquiet _⟩
  · rw [hevents]
    exact along_append.mpr ⟨h.fits, along_of_quiet fits_of_quiet hquiet _⟩
  · intro k
    refine (h.runs k).goes rfl rfl ?_ ?_ ?_ ?_
    · rw [terminalEvents_terminal]
      exact moves_goes hmoves hpartition howned (.inr hcontinues) _
    · rw [terminalEvents_terminal]
      exact emits_of_quiet k hquiet
    · exact execEvents_terminal k es
    · simp

section Job

variable {exec' : State} {es : List Event} {b : Action}

theorem since_job (j : Nat) (tr : List JobsEvent) (es : List Event) (called : List TerminalEvent) :
    cut j (tr ++ (es.map (.exec j) ++ called.map .terminal)) =
    ((cut j tr).1, since j tr ++ (es.map (.exec j) ++ called.map .terminal)) :=
  cut_append_of_forall (by simp [or_imp, forall_and])

theorem terminalEvents_job (j : Nat) (es : List Event) (called : List TerminalEvent) :
    terminalEvents (es.map (.exec j) ++ called.map .terminal) = called := by
  rw [terminalEvents_append, terminalEvents_exec, terminalEvents_terminal, List.nil_append]

theorem execEvents_job (j : Nat) (es : List Event) (called : List TerminalEvent) :
    execEvents j (es.map (.exec j) ++ called.map .terminal) = es := by
  rw [execEvents_append, execEvents_exec, execEvents_terminal, List.append_nil]

/-- A job's own step, with what it has called the terminal for. -/
theorem Runs.own (h : Runs j s tr) (hstep : (executeProcess (s.command j)).step (s.exec j) b = some (exec', es))
    {terminal' : Terminal.State} {called : List TerminalEvent} (hemitted : emits j called = pieces (calls es))
    (hlive : exec'.idle = false → (terminal'.phase j).leaving = false ∧
    Terminal.keys j (terminalEvents tr ++ called) = keys (calls (execEvents j (since j tr) ++ es)))
    (hreturned : exec'.idle = true →
    (terminal'.phase j).leaving = true ∨ (terminal'.phase j = .idle ∧ Terminal.keys j (terminalEvents tr ++ called) = [])) :
    Runs j { s with terminal := terminal', exec := Function.update s.exec j exec' }
    (tr ++ (es.map (.exec j) ++ called.map .terminal)) := by
  have hcut := since_job j tr es called
  have hsince := congrArg Prod.snd hcut
  have hrun : execEvents j (since j (tr ++ (es.map (.exec j) ++ called.map .terminal))) = execEvents j (since j tr) ++
    es := by
    rw [since, hsince, execEvents_append, execEvents_job]
  constructor
  · dsimp only
    rw [hrun, Function.update_self]
    exact h.run.step trivial hstep
  · exact h.short
  · dsimp only
    rw [hrun, Function.update_self, terminalEvents_append, terminalEvents_job]
    exact hlive
  · dsimp only
    rw [Function.update_self, terminalEvents_append, terminalEvents_job]
    exact hreturned
  · rw [hrun, since, hsince, terminalEvents_append, terminalEvents_job, emits_append, h.emitted, hemitted, calls_append]
    exact List.filterMap_append.symm
  · rw [hcut]
    exact h.past

/-- The step of a job does nothing to the other ones but what its call does. -/
theorem Runs.others {k : Nat} (h : Runs k s tr) (hk : k ≠ j) {terminal' : Terminal.State} {called : List TerminalEvent}
    (hgoes : Goes k s.terminal terminal' (terminalEvents tr) called) (hquiet : emits k called = []) :
    Runs k { s with terminal := terminal', exec := Function.update s.exec j exec' }
    (tr ++ (es.map (.exec j) ++ called.map .terminal)) := by
  refine h.goes (Function.update_of_ne hk ..) rfl ?_ ?_ ?_ ?_
  · rw [terminalEvents_job]
    exact hgoes
  · rw [terminalEvents_job]
    exact hquiet
  · rw [execEvents_append, execEvents_exec_of_ne hk, execEvents_terminal, List.append_nil]
  · simp [or_imp, forall_and]

theorem Together.silent (h : Together qsort s tr)
    (hstep : (executeProcess (s.command j)).step (s.exec j) b = some (exec', es)) (hcalls : calls es = [])
    (hidle : exec'.idle = (s.exec j).idle ∨ (s.exec j).pc = .fork ∧ s.terminal.phase j = .idle) :
    Together qsort { s with exec := Function.update s.exec j exec' }
    (tr ++ (es.map (.exec j) ++ [].map .terminal)) := by
  have hrun := h.runs j
  have hevents : terminalEvents (tr ++ (es.map (.exec j) ++ [].map .terminal)) = terminalEvents tr := by
    rw [terminalEvents_append, terminalEvents_job, List.append_nil]
  refine ⟨hevents.symm ▸ h.reach, hevents.symm ▸ h.increase, hevents.symm ▸ h.fits, fun k => ?_⟩
  by_cases hk : k = j
  · subst hk
    refine hrun.own hstep (by rw [hcalls]; rfl) (fun hafter => ?_) (fun hafter => ?_)
    · have hbefore : (s.exec k).idle = false := by
        rcases hidle with hsame | ⟨hpc, -⟩
        · exact hsame.symm.trans hafter
        · rw [State.idle, hpc]
      rw [List.append_nil, calls_append, hcalls, List.append_nil]
      exact hrun.live hbefore
    · rw [List.append_nil]
      rcases hidle with hsame | ⟨hpc, hphase⟩
      · exact hrun.returned (hsame.symm.trans hafter)
      · have hprinted := reach_printed hrun.run
        simp only [Printed, hpc] at hprinted
        refine .inr ⟨hphase, (hrun.live (by rw [State.idle, hpc])).2.trans ?_⟩
        rw [hprinted.1]
        rfl
  · refine (h.runs k).others hk (.on rfl (by rw [List.append_nil]) fun hidle => ⟨hidle, .refl _⟩) rfl

theorem Together.emit (h : Together qsort s tr)
    (hstep : (executeProcess (s.command j)).step (s.exec j) b = some (exec', es))
    (hmodest : ∀ woken, Modest s (.job j b woken)) {woken : Nat} {sortKey : Int32} {isStderr : Bool}
    {data : List UInt8} (hcalls : calls es = [.emit sortKey isStderr data]) (hbefore : (s.exec j).idle = false)
    (hafter : exec'.idle = false) {terminal' : Terminal.State} {called : List TerminalEvent}
    (hterminal : (terminal qsort).step s.terminal (.emit j sortKey isStderr data woken) = some (terminal', called)) :
    Together qsort { s with terminal := terminal', exec := Function.update s.exec j exec' }
    (tr ++ (es.map (.exec j) ++ called.map .terminal)) := by
  have hrun := h.runs j
  obtain ⟨hsortKey, hfooter⟩ := hmodest woken
  have hmoves := step_moves hstep
  have hsays := hcalls ▸ moves_said hmoves
  have hpartition := reach_partition h.reach
  have hcallee := Terminal.step_moves hpartition hterminal
  obtain ⟨⟨rest, rfl, hquiet⟩, hleaving, hkeys⟩ := moves_emit hcallee (terminalEvents tr)
  obtain ⟨-, hlive⟩ := hrun.live hbefore
  have hincreasing := (reach_keyed (hrun.run.step trivial hstep) (by have := sortKey_succ hmoves; omega)).increasing
  rw [calls_append, keys_append, hcalls] at hincreasing
  have hless : ∀ key ∈ Terminal.keys j (terminalEvents tr), key < sortKey := by
    rw [hlive]
    exact fun key hkey => (List.pairwise_append.mp hincreasing).2.2 key hkey sortKey (List.mem_singleton_self _)
  have hnear : ∀ key ∈ Terminal.keys j (terminalEvents tr), sortKey.toInt - key.toInt < 2 ^ 31 := by
    rw [hlive]
    intro key hkey
    have hlow := reach_low hrun.run (by omega) key hkey
    exact says_near hsays hsortKey (fun status hpc c hc => (hfooter status hpc c hc).2) hlow sortKey
      (List.mem_singleton_self _)
  have hsize : data.length ≤ kLineBufSize - 1 :=
    says_size hsays hrun.short (fun status hpc c hc => (hfooter status hpc c hc).1) _ (List.mem_singleton_self _)
  have hevents : terminalEvents
    (tr ++ (es.map (.exec j) ++ (TerminalEvent.emit j sortKey isStderr data :: rest).map .terminal)) =
      terminalEvents tr ++ .emit j sortKey isStderr data :: rest := by
    rw [terminalEvents_append, terminalEvents_job]
  have hother : ∀ k, emits k (.emit j sortKey isStderr data :: rest) = if j = k then [(isStderr, data)] else [] := by
    intro k
    have hrest := emits_of_quiet k hquiet
    rw [← List.singleton_append, emits_append, hrest, List.append_nil]
    by_cases hk : j = k <;> simp [emits, hk]
  constructor
  · rw [hevents]
    exact h.reach.step trivial hterminal
  · rw [KeysIncrease, hevents]
    exact along_append.mpr ⟨h.increase, hless, along_of_quiet increases_of_quiet hquiet _⟩
  · rw [hevents]
    exact along_append.mpr ⟨h.fits, ⟨hsize, hnear⟩, along_of_quiet fits_of_quiet hquiet _⟩
  · intro k
    by_cases hk : k = j
    · subst hk
      refine hrun.own hstep ?_ (fun _ => ⟨hleaving, ?_⟩) (fun hidle => by rw [hafter] at hidle; cases hidle)
      · rw [hother, if_pos rfl, hcalls]
        rfl
      · rw [hkeys, hlive, calls_append, keys_append, hcalls]
        rfl
    · refine (h.runs k).others hk (moves_goes hcallee hpartition (reach_owned h.reach) (.inl hk) _) ?_
      rw [hother, if_neg (Ne.symm hk)]

theorem Together.exit (h : Together qsort s tr)
    (hstep : (executeProcess (s.command j)).step (s.exec j) b = some (exec', es)) {woken : Nat}
    (hcalls : calls es = [.jobExit]) (hafter : exec'.idle = true) {terminal' : Terminal.State}
    {called : List TerminalEvent}
    (hterminal : (terminal qsort).step s.terminal (.exit j woken) = some (terminal', called)) :
    Together qsort { s with terminal := terminal', exec := Function.update s.exec j exec' }
    (tr ++ (es.map (.exec j) ++ called.map .terminal)) := by
  have hpartition := reach_partition h.reach
  have hcallee := Terminal.step_moves hpartition hterminal
  have hquiet := moves_quiet hcallee (by simp)
  have hevents : terminalEvents (tr ++ (es.map (.exec j) ++ called.map .terminal)) = terminalEvents tr ++ called := by
    rw [terminalEvents_append, terminalEvents_job]
  constructor
  · rw [hevents]
    exact h.reach.step trivial hterminal
  · rw [KeysIncrease, hevents]
    exact along_append.mpr ⟨h.increase, along_of_quiet increases_of_quiet hquiet _⟩
  · rw [hevents]
    exact along_append.mpr ⟨h.fits, along_of_quiet fits_of_quiet hquiet _⟩
  · intro k
    by_cases hk : k = j
    · subst hk
      refine (h.runs k).own hstep ?_ (fun hidle => by rw [hafter] at hidle; cases hidle)
        fun _ => .inl (moves_exit hcallee (terminalEvents tr)).1
      rw [emits_of_quiet k hquiet, hcalls]
      rfl
    · exact (h.runs k).others hk (moves_goes hcallee hpartition (reach_owned h.reach) (.inl hk) _)
        (emits_of_quiet k hquiet)

end Job

theorem Together.step (hsorts : Sorts qsort) (h : Together qsort s tr) (hmodest : Modest s a)
    (hstep : (jobs qsort).step s a = some (s', evs)) :
    Together qsort s' (tr ++ evs) := by
  change s.step qsort a = some (s', evs) at hstep
  cases a with
  | start jobId command =>
      rw [Jobs.step] at hstep
      split_ifs at hstep with hidle
      cases hstep
      exact h.start hsorts hidle.1 hidle.2 hmodest
  | terminal b =>
      rw [Jobs.step] at hstep
      split_ifs at hstep with hcontinues
      obtain ⟨⟨terminal', es⟩, hterminal, heq⟩ := Option.map_eq_some_iff.mp hstep
      cases heq
      exact h.goOn hcontinues hterminal
  | job jobId b woken =>
      rw [Jobs.step] at hstep
      split_ifs at hstep with hguard
      obtain ⟨⟨exec', es⟩, hexec, hleave⟩ := Option.bind_eq_some_iff.mp hstep
      have hmoves : Moves (s.command jobId) (s.exec jobId) b exec' es := step_moves hexec
      have hasks := moves_asks hmoves
      dsimp only at hleave
      generalize hcalls : calls es = cs at hasks hleave
      cases hasks with
      | nothing hidle =>
          cases hleave
          refine h.silent hexec hcalls (hidle.imp_right fun hfork => ⟨hfork.1, ?_⟩)
          by_contra hphase
          exact hguard ⟨hfork.2, hphase⟩
      | emit hbefore hafter =>
          obtain ⟨⟨terminal', called⟩, hterminal, heq⟩ := Option.map_eq_some_iff.mp hleave
          cases heq
          exact h.emit hexec (fun _ => hmodest) hcalls hbefore hafter hterminal
      | exit hbefore hafter =>
          obtain ⟨⟨terminal', called⟩, hterminal, heq⟩ := Option.map_eq_some_iff.mp hleave
          cases heq
          exact h.exit hexec hcalls hafter hterminal

theorem together_init (qsort : Qsort) : Together qsort Jobs.init [] := by
  refine ⟨.init, trivial, trivial, fun j => ?_⟩
  have hfailed : (executeProcess ⟨.empty, false, none⟩).step State.init (.run .fails) =
    some (State.init.goto (.done ⟨1, false⟩), []) := rfl
  refine ⟨Reach.init.step trivial hfailed, ?_, fun hidle => ?_, fun _ => .inr ⟨rfl, rfl⟩, rfl, rfl⟩
  · exact fun c hc => absurd hc List.not_mem_nil
  · cases hidle

theorem reach_together (hsorts : Sorts qsort) (h : Reach (jobs qsort) Modest s tr) : Together qsort s tr :=
  h.invariant (P := Together qsort) (together_init qsort)
    fun _ _ _ _ _ _ htogether hmodest hstep => htogether.step hsorts hmodest hstep

/-- When a command has returned, and its last call with it, what was written for its job since it was started is
what it has asked for, in that order: the lines in front of the output, what came out of the pipes, the line
behind it. What came out of a pipe is the beginning of what was written to it. -/
theorem jobs_output (hsorts : Sorts qsort) (h : Reach (jobs qsort) Modest s tr) {result : ExecResult}
    (hpc : (s.exec j).pc = .done result) (hphase : s.terminal.phase j = .idle) :
    bytesOf (writes j (terminalEvents (since j tr))) = bytesOf (pieces (calls (execEvents j (since j tr)))) ∧
    (∀ isStderr, received isStderr (execEvents j (since j tr)) ++ (s.exec j).pipe isStderr =
    wrote isStderr (execEvents j (since j tr))) ∧
    ((calls (execEvents j (since j tr)) = [] ∧ result = ⟨1, false⟩) ∨
      ∃ status, calls (execEvents j (since j tr)) =
        header (s.command j) ++ outputs (execEvents j (since j tr)) ++ footer (s.command j) status ++ [.jobExit] ∧ result = resultOf status) := by
  have htogether := reach_together hsorts h
  have hrun := htogether.runs j
  refine ⟨?_, reach_flow hrun.run, ?_⟩
  · have hwritten := htogether.written hsorts (by rw [State.idle, hpc]) hphase
    rw [← cut_fst_append_snd j tr, terminalEvents_append, writes_append, emits_append, bytesOf_append, bytesOf_append,
      hrun.past] at hwritten
    rw [← hrun.emitted]
    exact List.append_cancel_left hwritten
  · have hprinted := reach_printed hrun.run
    simp only [Printed, hpc] at hprinted
    rcases hprinted with ⟨hnone, -, -, hresult⟩ | ⟨status, hall, -, hresult⟩
    · exact .inl ⟨hnone, hresult⟩
    · exact .inr ⟨status, hall, hresult⟩

def modest (s : Jobs) : JobsAction → Bool
  | .start _ command => (header command).all fun c => c.size ≤ kLineBufSize - 1
  | .job jobId _ _ => (s.exec jobId).sortKey < 2 ^ 31 - 201 &&
      match (s.exec jobId).pc with
      | .report status => (footer (s.command jobId) status).isEmpty
      | _ => true
  | .terminal _ => true

theorem modest_of_check (s : Jobs) (a : JobsAction) (h : modest s a = true) : Modest s a := by
  cases a with
  | start jobId command => simpa [modest, Modest] using h
  | terminal b => trivial
  | job jobId b woken =>
      rw [modest, Bool.and_eq_true] at h
      refine ⟨of_decide_eq_true h.1, fun status hpc c hc => ?_⟩
      rw [hpc] at h
      rw [List.isEmpty_iff.mp h.2] at hc
      cases hc

/-- Two commands at the same time: the second one prints while the first one owns the TTY. -/
theorem jobs_output_two : ∃ (s : Jobs) (tr : List JobsEvent), (s.exec 1).pc = .done ⟨0, false⟩ ∧
    writes 1 (terminalEvents (since 1 tr)) = [(false, [114, 10]), (true, [104])] ∧
    bytesOf (writes 1 (terminalEvents (since 1 tr))) = bytesOf (pieces (calls (execEvents 1 (since 1 tr)))) := by
  have hexec : (exec ((jobs insertionSort).restrict modest)
    [.start 0 ⟨.run, true, none⟩, .start 1 ⟨.run, true, none⟩, .job 0 (.run .ok) 0,
      .job 0 (.run .ok) 0, .job 0 (.run .ok) 0, .terminal (.print 0), .job 1 (.run .ok) 0, .job 1 (.run .ok) 0,
        .job 1 (.run .ok) 0,
      .job 1 (.write true [104]) 0, .job 1 (.run (.selected fun isStderr => isStderr)) 0, .job 1 (.run .ok) 0,
        .job 1 (.run (.bytes 1)) 0,
      .job 1 (.finish (.exited 0)) 0, .job 1 (.run .ok) 0, .job 1 (.run .ok) 0, .job 0 (.finish (.exited 0)) 0,
      .job 0 (.run (.selected fun _ => false)) 0, .job 0 (.run .ok) 0, .job 0 (.run .ok) 0, .job 0 (.run .ok) 0,
        .job 0 (.run .ok) 0,
      .job 0 (.run .ok) 0, .terminal (.broadcast 0), .job 1 (.run .ok) 0, .terminal (.broadcast 1)] (.init, [])).map
      (fun c => ((c.1.exec 1).pc.result, c.1.terminal.phase 1, writes 1 (terminalEvents (since 1 c.2)))) =
      some (some ⟨0, false⟩, .idle, [(false, [114, 10]), (true, [104])]) := by
    decide +kernel
  obtain ⟨s, tr, hreach, hview⟩ := exists_reach_of_exec (fun _ _ _ => trivial) hexec
  simp only [Prod.mk.injEq] at hview
  obtain ⟨hresult, hphase, hwrites⟩ := hview
  have hpc := Pc.eq_done hresult
  exact ⟨s, tr, hpc, hwrites, (jobs_output sorts_insertionSort (hreach.of_restrict modest_of_check) hpc hphase).1⟩

end Tundra.ExecUnix
