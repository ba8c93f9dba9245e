import Tundra.Terminal.Order

/-!
# The terminal as its callers see it

What a step does to a job, by what the job itself has to do with it: it calls one of the two functions, it is in
a call, or it is another job's step.
-/

namespace Tundra.Terminal

open Transition

variable {qsort : Qsort} {s s' : State} {tr es : List TerminalEvent} {jobId woken : Nat} {sortKey : Int32}
  {isStderr : Bool} {data : List UInt8}
  {a : Action}

/-- In a `TerminalIoJobExit` that has not returned. -/
def Phase.leaving : Phase → Bool
  | .exiting => true
  | .signalling => true
  | _ => false

theorem leaving_update (lines : Lines) (phases : Nat → Phase) (j : Nat) (phase : Phase) :
    ((⟨lines, Function.update phases j phase⟩ : State).phase j).leaving = phase.leaving :=
  congrArg Phase.leaving (Function.update_self ..)

/-- The event of a call of `TerminalIoEmit`. -/
def TerminalEvent.isEmit : TerminalEvent → Bool
  | .emit _ _ _ _ => true
  | _ => false

theorem writesOf_quiet (jobId : Nat) (queue : List LineBuffer) :
    ∀ e ∈ Lines.writesOf jobId queue, e.isEmit = false := by
  intro e he
  obtain ⟨line, -, rfl⟩ := List.mem_map.mp he
  rfl

theorem taken_quiet {lines' : Lines} {taken : List TerminalEvent} {phase : Phase}
    (hemits : Lines.Emits qsort woken jobId sortKey isStderr s.lines data lines' taken phase) :
    ∀ e ∈ taken, e.isEmit = false := by
  rcases hemits.taken_eq with rfl | rfl
  · exact fun e he => absurd he List.not_mem_nil
  · exact List.forall_mem_cons.mpr ⟨rfl, writesOf_quiet _ _⟩

theorem emits_of_quiet (j : Nat) (h : ∀ e ∈ es, e.isEmit = false) : emits j es = [] := by
  rw [emits, List.filterMap_eq_nil_iff]
  intro e he
  have hquiet := h e he
  cases e with
  | emit => cases hquiet
  | take | write | release | exited => rfl

theorem along_of_quiet {P : List TerminalEvent → TerminalEvent → Prop}
    (hP : ∀ before e, e.isEmit = false → P before e) (h : ∀ e ∈ es, e.isEmit = false) (before : List TerminalEvent) :
    Along P before es :=
  along_of_forall fun e he past => hP past e (h e he)

theorem moves_quiet (hmoves : Moves qsort s a s' es)
    (ha : ∀ jobId sortKey isStderr data woken, a ≠ .emit jobId sortKey isStderr data woken) :
    ∀ e ∈ es, e.isEmit = false := by
  cases hmoves with
  | emit hcall hemits =>
      cases hcall with
      | call hidle => exact absurd rfl (ha _ _ _ _ _)
      | resume hphase => exact taken_quiet hemits
  | exitSleep hexit hother => exact fun e he => absurd he List.not_mem_nil
  | @exitPrint a jobId woken hexit htty =>
      rw [Lines.exitPrint_events]
      intro e he
      simp only [List.mem_append, List.mem_singleton] at he
      rcases he with (he | he) | rfl
      · split_ifs at he
        · cases he
        · rw [List.mem_singleton.mp he]
          rfl
      · exact writesOf_quiet _ _ e he
      · rfl
  | print hphase | broadcast hphase => exact List.forall_mem_cons.mpr ⟨rfl, fun e he => absurd he List.not_mem_nil⟩
  | wake => exact fun e he => absurd he List.not_mem_nil

theorem moves_emit (hmoves : Moves qsort s (.emit jobId sortKey isStderr data woken) s' es) (tr : List TerminalEvent) :
    (∃ rest, es = .emit jobId sortKey isStderr data :: rest ∧ ∀ e ∈ rest, e.isEmit = false) ∧
    (s'.phase jobId).leaving = false ∧
      keys jobId (tr ++ es) = keys jobId tr ++ [sortKey] := by
  cases hmoves with
  | exitSleep hexit | exitPrint hexit => cases hexit
  | @emit a jobId woken sortKey isStderr data events taken lines' phase hcall hemits =>
      have hkeys : ∀ ks, taken.foldl (keysStep jobId) ks = ks := foldl_keysStep_taken hemits jobId
      have hquiet := taken_quiet hemits
      cases hcall with
      | call hidle =>
          refine ⟨⟨taken, rfl, hquiet⟩, ?_, ?_⟩
          · rw [leaving_update]
            cases hemits <;> rfl
          · rw [keys_append, List.foldl_append, hkeys]
            exact if_pos rfl

theorem moves_exit (hmoves : Moves qsort s (.exit jobId woken) s' es) (tr : List TerminalEvent) :
    (s'.phase jobId).leaving = true ∧ keys jobId (tr ++ es) = keys jobId tr := by
  cases hmoves with
  | emit hcall => cases hcall
  | exitSleep hexit hother =>
      cases hexit with
      | call hidle => exact ⟨leaving_update .., by rw [List.append_nil]⟩
  | exitPrint hexit htty =>
      cases hexit with
      | call hidle => exact ⟨leaving_update .., by rw [keys_append]; exact foldl_keysStep_exitPrint ..⟩

/-- What a step leaves of a job that does not call the terminal in it: its call goes on, or its exit returns. -/
inductive Goes (j : Nat) (s s' : State) (tr es : List TerminalEvent) : Prop
  | on (hleaving : (s'.phase j).leaving = (s.phase j).leaving) (hkeys : keys j (tr ++ es) = keys j tr)
      (hidle : s.phase j = .idle → s'.phase j = .idle ∧ (s'.lines.queuedOf j).Perm (s.lines.queuedOf j))
  | back (hbefore : s.phase j = .signalling) (hafter : s'.phase j = .idle) (hkeys : keys j (tr ++ es) = [])
      (hqueue : s'.lines.queuedOf j = [])

/-- What a call does after it has begun. -/
def continues : Action → Bool
  | .emit _ _ _ _ _ => false
  | .exit _ _ => false
  | _ => true

theorem moves_goes {j : Nat} (hmoves : Moves qsort s a s' es) (hpartition : s.lines.Partition) (howned : Owned s)
    (hj : j ≠ a.jobId ∨ continues a = true) (tr : List TerminalEvent) : Goes j s s' tr es := by
  by_cases hne : j = a.jobId
  · have hcontinues := hj.resolve_left (not_not.mpr hne)
    cases hmoves with
    | emit hcall hemits =>
        obtain rfl := hne.trans hcall.jobId_eq
        cases hcall with
        | call hidle => cases hcontinues
        | resume hphase =>
            refine .on ?_ ?_ (fun hidle => by cases hphase.symm.trans hidle)
            · rw [leaving_update, hphase]
              cases hemits <;> rfl
            · rw [keys_append, List.nil_append, foldl_keysStep_taken hemits]
    | exitSleep hexit hother =>
        obtain rfl := hne.trans hexit.jobId_eq
        cases hexit with
        | call hidle => cases hcontinues
        | resume hphase =>
            refine .on ?_ ?_ (fun hidle => by cases hphase.symm.trans hidle)
            · rw [leaving_update, hphase]
            · rw [List.append_nil]
    | exitPrint hexit htty =>
        obtain rfl := hne.trans hexit.jobId_eq
        cases hexit with
        | call hidle => cases hcontinues
        | resume hphase =>
            refine .on ?_ ?_ (fun hidle => by cases hphase.symm.trans hidle)
            · rw [leaving_update, hphase]
              rfl
            · rw [keys_append]
              exact foldl_keysStep_exitPrint ..
    | @print jobId isStderr data hphase =>
        obtain rfl : j = jobId := hne
        refine .on ?_ ?_ (fun hidle => by cases hphase.symm.trans hidle)
        · rw [leaving_update, hphase]
          rfl
        · rw [keys_append]
          rfl
    | @broadcast jobId hphase =>
        obtain rfl : j = jobId := hne
        refine .back hphase (Function.update_self ..) ?_ (howned.signalling j hphase)
        rw [keys_append]
        exact if_pos rfl
    | wake jobId => exact .on rfl (by rw [List.append_nil]) fun hidle => ⟨hidle, .refl _⟩
  · have huntouched := moves_untouched hmoves hpartition hne
    exact .on (by rw [huntouched.phase]) (keys_of_ne hmoves hne)
      fun hidle => ⟨huntouched.phase.trans hidle, huntouched.queued⟩

end Tundra.Terminal
