import Mathlib.Data.List.Basic
import Mathlib.Data.Finset.Card
import Mathlib.Logic.Relation

/-!
# Worklist search

A search that takes elements from a stack, looks at their successors and puts those it has not seen yet on the
stack. When the stack is empty it has seen exactly the elements that can be reached by one or more edges from
the element it started with. It ends when only finitely many can be reached: what is on the stack and what has
not been seen yet gets less with every step.
-/

namespace Worklist

variable {α : Type} [DecidableEq α]

/-- What has been seen, the oldest first, and the stack, its top first. -/
structure State (α : Type) where
  seen : List α
  stack : List α

/-- See an element; it goes on the stack if it is new. -/
def State.add (s : State α) (x : α) : State α := if x ∈ s.seen then s else ⟨s.seen ++ [x], x :: s.stack⟩

def State.visit (s : State α) (xs : List α) : State α := xs.foldl State.add s

/-- The search with a bound on the number of steps: what has been seen when the stack is empty. -/
def run (next : α → List α) : Nat → State α → Option (List α)
  | 0, _ => none
  | fuel + 1, s =>
      match s.stack with
      | [] => some s.seen
      | x :: stack => run next fuel (State.visit ⟨s.seen, stack⟩ (next x))

/-- Reached from `root` by one or more edges. -/
def Reached (next : α → List α) (root : α) : α → Prop := Relation.TransGen (fun a b => b ∈ next a) root

variable {next : α → List α} {root : α} {s : State α}

/-- What visiting does: the new elements are put behind what was seen and on top of the stack. -/
theorem visit_spec (xs : List α) (s : State α) : ∃ new : List α,
    s.visit xs = ⟨s.seen ++ new, new.reverse ++ s.stack⟩ ∧ new.Nodup ∧ (∀ x ∈ new, x ∈ xs ∧ x ∉ s.seen) ∧
      ∀ x ∈ xs, x ∈ s.seen ++ new := by
  induction xs generalizing s with
  | nil => exact ⟨[], by simp [State.visit]⟩
  | cons x xs ih =>
      by_cases hx : x ∈ s.seen
      · obtain ⟨new, hvisit, hnodup, hnew, hall⟩ := ih s
        refine ⟨new, ?_, hnodup, fun y hy => ⟨List.mem_cons_of_mem _ (hnew y hy).1, (hnew y hy).2⟩, ?_⟩
        · rw [State.visit, List.foldl_cons, State.add, if_pos hx]
          exact hvisit
        · intro y hy
          rcases List.mem_cons.mp hy with rfl | hy
          · exact List.mem_append_left _ hx
          · exact hall y hy
      · obtain ⟨new, hvisit, hnodup, hnew, hall⟩ := ih ⟨s.seen ++ [x], x :: s.stack⟩
        refine ⟨x :: new, ?_, ?_, ?_, ?_⟩
        · rw [State.visit, List.foldl_cons, State.add, if_neg hx]
          refine hvisit.trans ?_
          simp
        · refine List.nodup_cons.mpr ⟨fun hmem => (hnew x hmem).2 ?_, hnodup⟩
          exact List.mem_append_right _ List.mem_cons_self
        · intro y hy
          rcases List.mem_cons.mp hy with rfl | hy
          · exact ⟨List.mem_cons_self, hx⟩
          · exact ⟨List.mem_cons_of_mem _ (hnew y hy).1, fun h => (hnew y hy).2 (List.mem_append_left _ h)⟩
        · intro y hy
          rcases List.mem_cons.mp hy with rfl | hy
          · simp
          · simpa using hall y hy

structure Inv (next : α → List α) (root : α) (s : State α) : Prop where
  nodup : s.seen.Nodup
  sound : ∀ x ∈ s.seen, Reached next root x
  stacked : ∀ x ∈ s.stack, x = root ∨ x ∈ s.seen
  closed : ∀ x, x = root ∨ x ∈ s.seen → x ∉ s.stack → ∀ y ∈ next x, y ∈ s.seen

omit [DecidableEq α] in
theorem Inv.start : Inv next root ⟨[], [root]⟩ where
  nodup := List.nodup_nil
  sound x hx := by cases hx
  stacked x hx := .inl (List.mem_singleton.mp hx)
  closed x hx hnot := by
    rcases hx with rfl | hx
    · exact absurd (List.mem_singleton_self _) hnot
    · cases hx

theorem Inv.step {x : α} {stack : List α} (hinv : Inv next root s) (hstack : s.stack = x :: stack) :
    Inv next root (State.visit ⟨s.seen, stack⟩ (next x)) := by
  obtain ⟨new, hvisit, hnodup, hnew, hall⟩ := visit_spec (next x) ⟨s.seen, stack⟩
  have hx : x = root ∨ x ∈ s.seen := hinv.stacked x (hstack ▸ List.mem_cons_self)
  rw [hvisit]
  refine ⟨?_, ?_, ?_, ?_⟩
  · exact List.Nodup.append hinv.nodup hnodup fun y hy hy' => (hnew y hy').2 hy
  · intro y hy
    rcases List.mem_append.mp hy with hy | hy
    · exact hinv.sound y hy
    · rcases hx with rfl | hx
      · exact .single (hnew y hy).1
      · exact (hinv.sound x hx).tail (hnew y hy).1
  · intro y hy
    rcases List.mem_append.mp hy with hy | hy
    · exact .inr (List.mem_append_right _ (List.mem_reverse.mp hy))
    · exact (hinv.stacked y (hstack ▸ List.mem_cons_of_mem _ hy)).imp_right (List.mem_append_left _)
  · intro y hy hnot z hz
    rw [List.mem_append, not_or, List.mem_reverse] at hnot
    by_cases hyx : y = x
    · subst hyx
      exact hall z hz
    · have hold : y = root ∨ y ∈ s.seen := by
        rcases hy with hy | hy
        · exact .inl hy
        · exact .inr ((List.mem_append.mp hy).resolve_right hnot.1)
      refine List.mem_append_left _ (hinv.closed y hold ?_ z hz)
      rw [hstack, List.mem_cons, not_or]
      exact ⟨hyx, hnot.2⟩

omit [DecidableEq α] in
/-- When the stack is empty, everything that can be reached has been seen. -/
theorem Inv.done (hinv : Inv next root s) (hstack : s.stack = []) (x : α) : x ∈ s.seen ↔ Reached next root x := by
  refine ⟨hinv.sound x, fun hreached => ?_⟩
  have hempty : ∀ y, y ∉ s.stack := fun y hy => by simp [hstack] at hy
  induction hreached with
  | single hedge => exact hinv.closed root (.inl rfl) (hempty _) _ hedge
  | tail _ hedge ih => exact hinv.closed _ (.inr ih) (hempty _) _ hedge

/-- With enough fuel the search ends, from any state on the way. -/
theorem run_of_inv {bound : Finset α} (hbound : ∀ x, Reached next root x → x ∈ bound) (fuel : Nat) :
    ∀ s : State α, Inv next root s → s.stack.length + bound.card < fuel + s.seen.length →
      ∃ seen, run next fuel s = some seen ∧ seen.Nodup ∧ ∀ x, x ∈ seen ↔ Reached next root x := by
  induction fuel with
  | zero =>
      intro s hinv hfuel
      have hle : s.seen.length ≤ bound.card := by
        rw [← List.toFinset_card_of_nodup hinv.nodup]
        exact Finset.card_le_card fun x hx => hbound x (hinv.sound x (List.mem_toFinset.mp hx))
      omega
  | succ fuel ih =>
      intro s hinv hfuel
      rw [run]
      cases hstack : s.stack with
      | nil => exact ⟨s.seen, rfl, hinv.nodup, hinv.done hstack⟩
      | cons x stack =>
          refine ih _ (hinv.step hstack) ?_
          obtain ⟨new, hvisit, -⟩ := visit_spec (next x) ⟨s.seen, stack⟩
          rw [hstack, List.length_cons] at hfuel
          simp only [hvisit, List.length_append, List.length_reverse]
          omega

/-- The search ends with what can be reached, if that is finite. -/
theorem run_eq_some {bound : Finset α} (hbound : ∀ x, Reached next root x → x ∈ bound) {fuel : Nat}
    (hfuel : bound.card + 1 < fuel) :
    ∃ seen, run next fuel ⟨[], [root]⟩ = some seen ∧ seen.Nodup ∧ ∀ x, x ∈ seen ↔ Reached next root x := by
  refine run_of_inv hbound fuel _ .start ?_
  simp only [List.length_singleton, List.length_nil]
  omega

end Worklist
