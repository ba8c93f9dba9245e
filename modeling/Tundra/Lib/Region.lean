import Mathlib.Data.List.Basic

/-!
# Changes within a region

Two lists that are the same in front of a place and from another place on. What stands outside of the region is
kept, and changes one after the other stay within the region they have together.
-/

namespace Region

variable {α : Type} {start stop start' stop' i : Nat} {l l' l'' : List α}

/-- The lists are the same outside of a region. -/
structure Within (start stop : Nat) (l l' : List α) : Prop where
  length : l'.length = l.length
  take : l'.take start = l.take start
  drop : l'.drop stop = l.drop stop

namespace Within

theorem refl (start stop : Nat) (l : List α) : Within start stop l l := ⟨rfl, rfl, rfl⟩

theorem take_of_le (h : Within start stop l l') (hstart : start' ≤ start) : l'.take start' = l.take start' := by
  have htake := congrArg (List.take start') h.take
  rwa [List.take_take, List.take_take, Nat.min_eq_left hstart] at htake

theorem drop_of_le (h : Within start stop l l') (hstop : stop ≤ stop') : l'.drop stop' = l.drop stop' := by
  have hdrop := congrArg (List.drop (stop' - stop)) h.drop
  rwa [List.drop_drop, List.drop_drop, Nat.add_sub_cancel' hstop] at hdrop

theorem mono (h : Within start stop l l') (hstart : start' ≤ start) (hstop : stop ≤ stop') : Within start' stop' l l' :=
  ⟨h.length, h.take_of_le hstart, h.drop_of_le hstop⟩

theorem trans (h : Within start stop l l') (h' : Within start stop l' l'') : Within start stop l l'' :=
  ⟨h'.length.trans h.length, h'.take.trans h.take, h'.drop.trans h.drop⟩

theorem set (hstart : start ≤ i) (hstop : i < stop) (l : List α) (a : α) : Within start stop l (l.set i a) :=
  ⟨List.length_set, List.take_set_of_le hstart, List.drop_set_of_lt hstop⟩

end Within

end Region
