import Mathlib.Algebra.BigOperators.Group.Finset.Basic
import Mathlib.Algebra.Order.BigOperators.Group.Finset
import Mathlib.Algebra.GroupWithZero.Nat

/-!
# Counting threads

Threads that run the same code are told apart by nothing but where they stand, so an invariant about all of them
is often one about how many stand where. `tally` adds up a weight over the threads and `census` counts the ones
at a place; one step moves one thread, and the two `update` lemmas say what that does to the numbers.
-/

namespace Census

variable {ι α : Type} [Fintype ι]

/-- The sum of the weights of the places. -/
def tally (w : α → Nat) (place : ι → α) : Nat := ∑ i, w (place i)

/-- How many stand at a place. -/
def census [DecidableEq α] (a : α) (place : ι → α) : Nat := tally (fun b => if b = a then 1 else 0) place

variable {w : α → Nat} {place : ι → α} {i j : ι} {a b : α}

theorem le_tally : w (place i) ≤ tally w place :=
  Finset.single_le_sum (f := fun j => w (place j)) (fun _ _ => Nat.zero_le _) (Finset.mem_univ i)

theorem exists_of_tally_pos (h : 0 < tally w place) : ∃ i, 0 < w (place i) := by
  by_contra hnone
  have hzero : tally w place = 0 := Finset.sum_eq_zero fun i _ => Nat.eq_zero_of_not_pos fun hi => hnone ⟨i, hi⟩
  omega

theorem tally_eq_zero_iff : tally w place = 0 ↔ ∀ i, w (place i) = 0 := by
  simp [tally]

theorem census_pos_iff [DecidableEq α] : 0 < census a place ↔ ∃ i, place i = a := by
  constructor
  · intro h
    obtain ⟨i, hi⟩ := exists_of_tally_pos h
    refine ⟨i, ?_⟩
    by_contra hne
    simp [hne] at hi
  · rintro ⟨i, hi⟩
    have hle : (if place i = a then 1 else 0) ≤ census a place := le_tally (w := fun b => if b = a then 1 else 0)
    rw [if_pos hi] at hle
    exact hle

theorem census_eq_one [DecidableEq α] (hi : place i = a) (hunique : ∀ j, place j = a → j = i) : census a place = 1 := by
  unfold census tally
  rw [Finset.sum_eq_single i]
  · exact if_pos hi
  · intro j _ hj
    exact if_neg fun h => hj (hunique j h)
  · intro h
    exact absurd (Finset.mem_univ i) h

variable [DecidableEq ι]

theorem tally_update : tally w (Function.update place i a) + w (place i) = tally w place + w a := by
  have hnew := Finset.add_sum_erase Finset.univ (fun j => w (Function.update place i a j)) (Finset.mem_univ i)
  have hold := Finset.add_sum_erase Finset.univ (fun j => w (place j)) (Finset.mem_univ i)
  have hrest : ∑ j ∈ Finset.univ.erase i, w (Function.update place i a j) = ∑ j ∈ Finset.univ.erase i, w (place j) := by
    refine Finset.sum_congr rfl fun j hj => ?_
    rw [Function.update_of_ne (Finset.ne_of_mem_erase hj)]
  rw [Function.update_self] at hnew
  unfold tally
  omega

@[simp] theorem cast_tally_update :
    (tally w (Function.update place i a) : Int) = tally w place + w a - w (place i) := by
  have hmove := @tally_update ι α _ w place i a _
  omega

theorem add_le_tally (hij : i ≠ j) : w (place i) + w (place j) ≤ tally w place := by
  have hsum := Finset.add_sum_erase Finset.univ (fun j => w (place j)) (Finset.mem_univ i)
  have hrest : w (place j) ≤ ∑ j ∈ Finset.univ.erase i, w (place j) :=
    Finset.single_le_sum (f := fun j => w (place j)) (fun _ _ => Nat.zero_le _)
      (Finset.mem_erase.mpr ⟨hij.symm, Finset.mem_univ j⟩)
  unfold tally
  omega

theorem census_update [DecidableEq α] :
    census b (Function.update place i a) + (if place i = b then 1 else 0) = census b place + (if a = b then 1 else 0) :=
  tally_update

@[simp] theorem cast_census_update [DecidableEq α] : (census b (Function.update place i a) : Int) =
    census b place + (if a = b then 1 else 0) - (if place i = b then 1 else 0) := by
  have hmove := @census_update ι α _ place i a b _ _
  split_ifs at hmove ⊢ <;> omega

end Census
