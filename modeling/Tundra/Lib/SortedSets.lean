import Mathlib.Data.Finset.Sort

/-!
# Two sorted sets in a row

Two finite sets, each sorted, written one behind the other. Where the first one ends cannot be read off the
list: elements between the two sets can be in either.
-/

namespace SortedSets

variable {α : Type} [DecidableEq α] (r : α → α → Prop) [DecidableRel r] [IsTrans α r] [Std.Antisymm r] [Std.Total r]

/-- An element that stands in front of another one. -/
def Before (a b : α) : Prop := r a b ∧ a ≠ b

/-- Elements of the first set of `s` are in the second one of `t`, and apart from them the sets are the same. In
order they come after the rest of the first set and before the rest of the second one. -/
def Moved (s t : Finset α × Finset α) : Prop :=
  ∃ moved : Finset α, moved.Nonempty ∧ s.1 = t.1 ∪ moved ∧ t.2 = moved ∪ s.2 ∧
    (∀ a ∈ t.1, ∀ m ∈ moved, Before r a m) ∧ ∀ m ∈ moved, ∀ b ∈ s.2, Before r m b

variable {r} {s t : Finset α × Finset α} {a b : Finset α} {l : List α}

/-- A list without repetitions that has the members of a set in order. -/
theorem sort_eq_of_mem (hsorted : l.Pairwise r) (hnodup : l.Nodup) (hmem : ∀ x, x ∈ l ↔ x ∈ a) : a.sort r = l := by
  have hset : l.toFinset = a := by
    ext x
    rw [List.mem_toFinset, hmem]
  rw [← hset]
  exact (List.toFinset_sort r hnodup).mpr hsorted

theorem sort_injective (h : a.sort r = b.sort r) : a = b := by
  rw [← Finset.sort_toFinset a r, h, Finset.sort_toFinset]

/-- Two sets, the first of which is in front of the second. -/
theorem sort_union (h : ∀ x ∈ a, ∀ y ∈ b, Before r x y) : (a ∪ b).sort r = a.sort r ++ b.sort r := by
  refine sort_eq_of_mem ?_ ?_ fun x => ?_
  · rw [List.pairwise_append]
    refine ⟨Finset.pairwise_sort a r, Finset.pairwise_sort b r, fun x hx y hy => ?_⟩
    exact (h x ((Finset.mem_sort r).mp hx) y ((Finset.mem_sort r).mp hy)).1
  · refine (Finset.sort_nodup a r).append (Finset.sort_nodup b r) fun x hx hy => ?_
    exact (h x ((Finset.mem_sort r).mp hx) x ((Finset.mem_sort r).mp hy)).2 rfl
  · rw [List.mem_append, Finset.mem_sort, Finset.mem_sort, Finset.mem_union]

theorem exists_union_of_sort {k l : List α} (h : a.sort r = k ++ l) :
    k.toFinset.sort r = k ∧ l.toFinset.sort r = l ∧ a = k.toFinset ∪ l.toFinset ∧
    ∀ x ∈ k.toFinset, ∀ y ∈ l.toFinset, Before r x y := by
  have hsorted := Finset.pairwise_sort a r
  have hnodup := Finset.sort_nodup a r
  rw [h] at hsorted hnodup
  obtain ⟨hk, hl, hkl⟩ := List.pairwise_append.mp hsorted
  obtain ⟨hnodupK, hnodupL, hdisjoint⟩ := List.nodup_append.mp hnodup
  refine ⟨(List.toFinset_sort r hnodupK).mpr hk, (List.toFinset_sort r hnodupL).mpr hl, ?_, fun x hx y hy => ?_⟩
  · rw [← Finset.sort_toFinset a r, h, List.toFinset_append]
  · rw [List.mem_toFinset] at hx hy
    exact ⟨hkl x hx y hy, hdisjoint x hx y hy⟩

theorem sort_append_of_moved (h : Moved r s t) : s.1.sort r ++ s.2.sort r = t.1.sort r ++ t.2.sort r := by
  obtain ⟨moved, -, hfirst, hsecond, hafter, hbefore⟩ := h
  rw [hfirst, hsecond, sort_union hafter, sort_union hbefore, List.append_assoc]

theorem moved_of_append {l : List α} (hl : l ≠ []) (hfirst : s.1.sort r = t.1.sort r ++ l)
    (hsecond : t.2.sort r = l ++ s.2.sort r) :
    Moved r s t := by
  obtain ⟨hsort, -, hunion, hafter⟩ := exists_union_of_sort hfirst
  obtain ⟨-, hsort', hunion', hbefore⟩ := exists_union_of_sort hsecond
  rw [Finset.sort_toFinset] at hunion hafter hunion' hbefore
  exact ⟨l.toFinset, List.toFinset_nonempty_iff l |>.mpr hl, hunion, hunion', hafter, hbefore⟩

/-- The two sets can be read off the list up to elements that can be in either. -/
theorem sort_append_eq_iff :
    s.1.sort r ++ s.2.sort r = t.1.sort r ++ t.2.sort r ↔ s = t ∨ Moved r s t ∨ Moved r t s := by
  constructor
  · intro h
    rcases List.append_eq_append_iff.mp h with ⟨l, hfirst, hsecond⟩ | ⟨l, hfirst, hsecond⟩
    · by_cases hl : l = []
      · rw [hl, List.append_nil] at hfirst
        rw [hl, List.nil_append] at hsecond
        exact .inl (Prod.ext (sort_injective hfirst.symm) (sort_injective hsecond))
      · exact .inr (.inr (moved_of_append hl hfirst hsecond))
    · by_cases hl : l = []
      · rw [hl, List.append_nil] at hfirst
        rw [hl, List.nil_append] at hsecond
        exact .inl (Prod.ext (sort_injective hfirst) (sort_injective hsecond.symm))
      · exact .inr (.inl (moved_of_append hl hfirst hsecond))
  · rintro (rfl | h | h)
    · rfl
    · exact sort_append_of_moved h
    · exact (sort_append_of_moved h).symm

omit [DecidableRel r] [IsTrans α r] [Std.Antisymm r] [Std.Total r] in
theorem Moved.fst_ne (h : Moved r s t) : s.1 ≠ t.1 := by
  obtain ⟨moved, ⟨m, hm⟩, hfirst, -, hafter, -⟩ := h
  intro heq
  have hmem : m ∈ t.1 := by
    rw [← heq, hfirst]
    exact Finset.mem_union_right _ hm
  exact (hafter m hmem m hm).2 rfl

end SortedSets
