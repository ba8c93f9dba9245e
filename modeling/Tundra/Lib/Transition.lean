import Mathlib.Data.List.Basic
import Mathlib.Logic.Relation

/-!
# Labelled transition systems

A system with a partial deterministic step. The label of a step carries every choice the environment makes, so a
run is a list of labels and an interleaving is nothing but another list. A step also emits events, and a
reachable state comes with the events of the run that reached it.

`Reach` is indexed by the labels a run may use. `Reach.invariant` is the one induction over runs: every result
about all interleavings goes through it.
-/

namespace Transition

/-- An initial state and a step that may refuse a label. -/
structure System (σ α ε : Type) where
  init : σ
  step : σ → α → Option (σ × List ε)

variable {σ α ε : Type}

/-- The states a run reaches from the initial one when each step's label is allowed where it is taken, with the
events emitted on the way, oldest first. -/
inductive Reach (sys : System σ α ε) (allowed : σ → α → Prop) : σ → List ε → Prop
  | init : Reach sys allowed sys.init []
  | step {s s' : σ} {tr es : List ε} {a : α} (hreach : Reach sys allowed s tr) (hallowed : allowed s a)
      (hstep : sys.step s a = some (s', es)) : Reach sys allowed s' (tr ++ es)

/-- Every label is allowed everywhere. -/
def anything : σ → α → Prop := fun _ _ => True

variable {sys : System σ α ε} {allowed : σ → α → Prop}

/-- What holds initially and is kept by every allowed step holds along every run. -/
theorem Reach.invariant {P : σ → List ε → Prop} (hinit : P sys.init [])
    (hkeep : ∀ s tr a s' es, Reach sys allowed s tr → P s tr → allowed s a → sys.step s a = some (s', es) →
    P s' (tr ++ es))
    {s : σ} {tr : List ε} (hreach : Reach sys allowed s tr) : P s tr := by
  induction hreach with
  | init => exact hinit
  | step hreach hallowed hstep ih => exact hkeep _ _ _ _ _ hreach ih hallowed hstep

theorem Reach.state_invariant {P : σ → Prop} (hinit : P sys.init)
    (hkeep : ∀ s a s' es, P s → sys.step s a = some (s', es) → P s')
    {s : σ} {tr : List ε} (hreach : Reach sys allowed s tr) : P s :=
  Reach.invariant (P := fun s _ => P s) hinit (fun _ _ _ _ _ _ hp _ hstep => hkeep _ _ _ _ hp hstep) hreach

theorem Reach.weaken {allowed' : σ → α → Prop} (himp : ∀ s a, allowed s a → allowed' s a)
    {s : σ} {tr : List ε} (hreach : Reach sys allowed s tr) : Reach sys allowed' s tr := by
  induction hreach with
  | init => exact .init
  | step _ hallowed hstep ih => exact .step ih (himp _ _ hallowed) hstep

theorem Reach.any {s : σ} {tr : List ε} (hreach : Reach sys allowed s tr) : Reach sys anything s tr :=
  hreach.weaken fun _ _ _ => trivial

/-- Run a list of labels, collecting the events. -/
def exec (sys : System σ α ε) : List α → σ × List ε → Option (σ × List ε)
  | [], c => some c
  | a :: as, (s, tr) => (sys.step s a).bind fun (s', es) => exec sys as (s', tr ++ es)

theorem Reach.exec {as : List α} {s s' : σ} {tr tr' : List ε} (hreach : Reach sys allowed s tr)
    (hallowed : ∀ a ∈ as, ∀ s, allowed s a) (hexec : exec sys as (s, tr) = some (s', tr')) :
    Reach sys allowed s' tr' := by
  induction as generalizing s tr with
  | nil =>
      simp only [Transition.exec, Option.some.injEq, Prod.mk.injEq] at hexec
      obtain ⟨rfl, rfl⟩ := hexec
      exact hreach
  | cons a as ih =>
      rw [Transition.exec, Option.bind_eq_some_iff] at hexec
      obtain ⟨⟨mid, es⟩, hstep, hrest⟩ := hexec
      have hstep' := hreach.step (hallowed a List.mem_cons_self s) hstep
      exact ih hstep' (fun b hb => hallowed b (List.mem_cons_of_mem a hb)) hrest

/-- A run that can be computed, seen through a function whose values can be compared. -/
theorem exists_reach_of_exec {β : Type} {as : List α} {view : σ × List ε → β} {b : β}
    (hallowed : ∀ a ∈ as, ∀ s, allowed s a) (hexec : (exec sys as (sys.init, [])).map view = some b) :
    ∃ s tr, Reach sys allowed s tr ∧ view (s, tr) = b := by
  obtain ⟨⟨s, tr⟩, hrun, hview⟩ := Option.map_eq_some_iff.mp hexec
  exact ⟨s, tr, Reach.init.exec hallowed hrun, hview⟩

/-- The system with the labels that pass a check. -/
def System.restrict (sys : System σ α ε) (check : σ → α → Bool) :
    System σ α ε := ⟨sys.init, fun s a => if check s a then sys.step s a else none⟩

theorem Reach.of_restrict {check : σ → α → Bool} (hcheck : ∀ s a, check s a = true → allowed s a) {s : σ} {tr : List ε}
    (hreach : Reach (sys.restrict check) anything s tr) : Reach sys allowed s tr := by
  induction hreach with
  | init => exact .init
  | @step s s' tr es a hreach hallowed hstep ih =>
      rw [System.restrict] at hstep
      dsimp only at hstep
      split_ifs at hstep with hok
      exact .step ih (hcheck s a hok) hstep

/-- What holds of every event and the events before it. -/
def Along (P : List ε → ε → Prop) (before : List ε) : List ε → Prop
  | [] => True
  | e :: es => P before e ∧ Along P (before ++ [e]) es

instance decidableAlong {P : List ε → ε → Prop} [∀ before e, Decidable (P before e)] :
    ∀ (before es : List ε), Decidable (Along P before es)
  | _, [] => inferInstanceAs (Decidable True)
  | before, e :: es =>
      have := decidableAlong (P := P) (before ++ [e]) es
      inferInstanceAs (Decidable (P before e ∧ Along P (before ++ [e]) es))

theorem along_append {P : List ε → ε → Prop} {before es es' : List ε} :
    Along P before (es ++ es') ↔ Along P before es ∧ Along P (before ++ es) es' := by
  induction es generalizing before with
  | nil => simp [Along]
  | cons e es ih => simp [Along, ih, and_assoc]

theorem along_of_forall {P : List ε → ε → Prop} {before es : List ε} (h : ∀ e ∈ es, ∀ past, P past e) :
    Along P before es := by
  induction es generalizing before with
  | nil => exact trivial
  | cons e es ih => exact ⟨h e List.mem_cons_self before, ih fun e' he' => h e' (List.mem_cons_of_mem e he')⟩

theorem Along.here {P : List ε → ε → Prop} {before past future : List ε} {e : ε}
    (h : Along P before (past ++ e :: future)) : P (before ++ past) e :=
  (along_append.mp h).2.1

end Transition
