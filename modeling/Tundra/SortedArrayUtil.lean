import Tundra.Common
import Mathlib.Order.Lattice
import Mathlib.Data.List.Basic
import Mathlib.Data.List.Pairwise

/-!
# Sorted arrays

`SortedArrayUtil.hpp`: the traversal of two sorted arrays side by side, and the binary search. Both are generic
in the keys, which are compared by a function that returns a negative number, zero or a positive number.
-/

namespace Tundra

section Traverse

variable {α β κ σ : Type} (compareArrayKeys : κ → κ → Int) (callback1 : σ → α → σ) (keySelect1 : α → κ)
  (callback2 : σ → β → σ) (keySelect2 : β → κ)

/-- `TraverseSortedArrays`: every element of the first array, and those of the second array whose key the first
one has not, in the order of the keys. -/
def traverseSortedArrays : List α → List β → σ → σ
  | x :: xs, y :: ys, s =>
      let compare := compareArrayKeys (keySelect1 x) (keySelect2 y)
      if compare ≤ 0 then
        if compare = 0 then traverseSortedArrays xs ys (callback1 s x)
        else traverseSortedArrays xs (y :: ys) (callback1 s x)
      else traverseSortedArrays (x :: xs) ys (callback2 s y)
  | x :: xs, [], s => traverseSortedArrays xs [] (callback1 s x)
  | [], y :: ys, s => traverseSortedArrays [] ys (callback2 s y)
  | [], [], s => s
termination_by xs ys _ => xs.length + ys.length

/-- The elements `traverseSortedArrays` hands to its callbacks. -/
def visited : List α → List β → List (α ⊕ β)
  | x :: xs, y :: ys =>
      let compare := compareArrayKeys (keySelect1 x) (keySelect2 y)
      if compare ≤ 0 then
        if compare = 0 then .inl x :: visited xs ys
        else .inl x :: visited xs (y :: ys)
      else .inr y :: visited (x :: xs) ys
  | x :: xs, [] => .inl x :: visited xs []
  | [], y :: ys => .inr y :: visited [] ys
  | [], [] => []
termination_by xs ys => xs.length + ys.length

theorem traverseSortedArrays_eq_foldl (xs : List α) (ys : List β) (s : σ) :
    traverseSortedArrays compareArrayKeys callback1 keySelect1 callback2 keySelect2 xs ys s =
      (visited compareArrayKeys keySelect1 keySelect2 xs ys).foldl
      (fun s v => v.elim (callback1 s) (callback2 s)) s := by
  fun_induction traverseSortedArrays with
  | case1 s x xs y ys compare hle heq ih => simp [visited, compare, heq, ih]
  | case2 s x xs y ys compare hle hne ih => simp [visited, compare, hle, hne, ih]
  | case3 s x xs y ys compare hgt ih => simp [visited, compare, hgt, ih]
  | case4 s x xs ih => simp [visited, ih]
  | case5 s y ys ih => simp [visited, ih]
  | case6 s => simp [visited]

end Traverse

/-- A comparison that agrees with a linear order. -/
structure Compares {κ : Type} [LinearOrder κ] (compare : κ → κ → Int) : Prop where
  neg_iff : ∀ a b, compare a b < 0 ↔ a < b
  zero_iff : ∀ a b, compare a b = 0 ↔ a = b

theorem compares_hashDigests : Compares compareHashDigests := ⟨compareHashDigests_lt, compareHashDigests_eq⟩

section Visited

variable {α β κ : Type} [LinearOrder κ] {compareArrayKeys : κ → κ → Int}
  {keySelect1 : α → κ} {keySelect2 : β → κ} {xs : List α} {ys : List β}

theorem Compares.lt_of_pos {a b : κ} (hcompare : Compares compareArrayKeys) (h : ¬ compareArrayKeys a b ≤ 0) :
    b < a := by
  have hlt := hcompare.neg_iff a b
  have heq := hcompare.zero_iff a b
  rcases lt_trichotomy a b with hab | hab | hab
  · exact absurd (hlt.mpr hab) (by omega)
  · exact absurd (heq.mpr hab) (by omega)
  · exact hab

omit [LinearOrder κ] in
theorem inl_mem_visited (x : α) : .inl x ∈ visited compareArrayKeys keySelect1 keySelect2 xs ys ↔ x ∈ xs := by
  fun_induction visited with
  | case1 z xs y ys compare hle heq ih => simp [ih]
  | case2 z xs y ys compare hle hne ih => simp [ih]
  | case3 z xs y ys compare hgt ih => simp [ih]
  | case4 z xs ih => simp [ih]
  | case5 y ys ih => simp [ih]
  | case6 => simp

theorem inr_mem_visited (hcompare : Compares compareArrayKeys)
    (hxs : xs.Pairwise fun a b => keySelect1 a < keySelect1 b)
    (hys : ys.Pairwise fun a b => keySelect2 a < keySelect2 b) (y : β) :
    .inr y ∈ visited compareArrayKeys keySelect1 keySelect2 xs ys ↔ y ∈ ys ∧ ∀ x ∈ xs, keySelect1 x ≠ keySelect2 y := by
  fun_induction visited with
  | case1 z xs w ys compare hle heq ih =>
      rw [List.pairwise_cons] at hxs hys
      have hkey : keySelect1 z = keySelect2 w := (hcompare.zero_iff _ _).mp heq
      have hw : ¬ ∀ x ∈ z :: xs, keySelect1 x ≠ keySelect2 w := fun hall => hall z List.mem_cons_self hkey
      simp only [List.mem_cons, reduceCtorEq, false_or, ih hxs.2 hys.2]
      constructor
      · rintro ⟨hy, hall⟩
        refine ⟨.inr hy, ?_⟩
        rintro x (rfl | hx)
        · rw [hkey]
          exact (hys.1 y hy).ne
        · exact hall x hx
      · rintro ⟨rfl | hy, hall⟩
        · exact absurd hkey (hall z (.inl rfl))
        · exact ⟨hy, fun x hx => hall x (.inr hx)⟩
  | case2 z xs w ys compare hle hne ih =>
      have hkey : keySelect1 z < keySelect2 w := (hcompare.neg_iff _ _).mp (by omega)
      have hbelow : ∀ y ∈ w :: ys, keySelect1 z < keySelect2 y := by
        intro y hy
        rcases List.mem_cons.mp hy with rfl | hy
        · exact hkey
        · exact hkey.trans ((List.pairwise_cons.mp hys).1 y hy)
      rw [List.mem_cons, ih (List.pairwise_cons.mp hxs).2 hys]
      simp only [reduceCtorEq, false_or]
      refine and_congr_right fun hy => ?_
      rw [List.forall_mem_cons]
      exact (and_iff_right (hbelow y hy).ne).symm
  | case3 z xs w ys compare hgt ih =>
      have hkey : keySelect2 w < keySelect1 z := hcompare.lt_of_pos hgt
      have habove : ∀ x ∈ z :: xs, keySelect1 x ≠ keySelect2 w := by
        intro x hx
        rcases List.mem_cons.mp hx with rfl | hx
        · exact hkey.ne'
        · exact (hkey.trans ((List.pairwise_cons.mp hxs).1 x hx)).ne'
      rw [List.mem_cons, ih hxs (List.pairwise_cons.mp hys).2, List.mem_cons]
      simp only [Sum.inr.injEq]
      constructor
      · rintro (rfl | ⟨hy, hall⟩)
        · exact ⟨.inl rfl, habove⟩
        · exact ⟨.inr hy, hall⟩
      · rintro ⟨rfl | hy, hall⟩
        · exact .inl rfl
        · exact .inr ⟨hy, hall⟩
  | case4 z xs ih => simp [ih (List.pairwise_cons.mp hxs).2 .nil]
  | case5 w ys ih => simp [ih .nil (List.pairwise_cons.mp hys).2]
  | case6 => simp

omit [LinearOrder κ] in
theorem mem_of_inr_mem_visited {y : β} (h : .inr y ∈ visited compareArrayKeys keySelect1 keySelect2 xs ys) :
    y ∈ ys := by
  fun_induction visited with
  | case1 z xs w ys compare hle heq ih => exact List.mem_cons_of_mem _ (ih (by simpa using h))
  | case2 z xs w ys compare hle hne ih => exact ih (by simpa using h)
  | case3 z xs w ys compare hgt ih =>
      rcases List.mem_cons.mp h with hyw | h
      · rw [Sum.inr.inj hyw]
        exact List.mem_cons_self
      · exact List.mem_cons_of_mem _ (ih h)
  | case4 z xs ih => exact ih (by simpa using h)
  | case5 w ys ih =>
      rcases List.mem_cons.mp h with hyw | h
      · rw [Sum.inr.inj hyw]
        exact List.mem_cons_self
      · exact List.mem_cons_of_mem _ (ih h)
  | case6 => simp at h

/-- The key of an element of either array. -/
def visitKey (keySelect1 : α → κ) (keySelect2 : β → κ) : α ⊕ β → κ := Sum.elim keySelect1 keySelect2

/-- What lies below both arrays lies below all the callbacks see. -/
theorem lt_visitKey {k : κ} (hxs : ∀ x ∈ xs, k < keySelect1 x) (hys : ∀ y ∈ ys, k < keySelect2 y) :
    ∀ v ∈ visited compareArrayKeys keySelect1 keySelect2 xs ys, k < visitKey keySelect1 keySelect2 v := by
  intro v hv
  cases v with
  | inl x => exact hxs x ((inl_mem_visited x).mp hv)
  | inr y => exact hys y (mem_of_inr_mem_visited hv)

theorem visited_pairwise (hcompare : Compares compareArrayKeys)
    (hxs : xs.Pairwise fun a b => keySelect1 a < keySelect1 b)
    (hys : ys.Pairwise fun a b => keySelect2 a < keySelect2 b) :
    (visited compareArrayKeys keySelect1 keySelect2 xs ys).Pairwise fun v w =>
      visitKey keySelect1 keySelect2 v < visitKey keySelect1 keySelect2 w := by
  fun_induction visited with
  | case1 z xs w ys compare hle heq ih =>
      rw [List.pairwise_cons] at hxs hys
      have hkey : keySelect1 z = keySelect2 w := (hcompare.zero_iff _ _).mp heq
      refine List.pairwise_cons.mpr ⟨lt_visitKey hxs.1 fun y hy => ?_, ih hxs.2 hys.2⟩
      change keySelect1 z < keySelect2 y
      rw [hkey]
      exact hys.1 y hy
  | case2 z xs w ys compare hle hne ih =>
      have hkey : keySelect1 z < keySelect2 w := (hcompare.neg_iff _ _).mp (by omega)
      rw [List.pairwise_cons] at hxs
      refine List.pairwise_cons.mpr ⟨lt_visitKey hxs.1 fun y hy => ?_, ih hxs.2 hys⟩
      rcases List.mem_cons.mp hy with rfl | hy
      · exact hkey
      · exact hkey.trans ((List.pairwise_cons.mp hys).1 y hy)
  | case3 z xs w ys compare hgt ih =>
      have hkey : keySelect2 w < keySelect1 z := hcompare.lt_of_pos hgt
      rw [List.pairwise_cons] at hys
      refine List.pairwise_cons.mpr ⟨lt_visitKey (fun x hx => ?_) hys.1, ih hxs hys.2⟩
      rcases List.mem_cons.mp hx with rfl | hx
      · exact hkey
      · exact hkey.trans ((List.pairwise_cons.mp hxs).1 x hx)
  | case4 z xs ih =>
      rw [List.pairwise_cons] at hxs
      exact List.pairwise_cons.mpr ⟨lt_visitKey hxs.1 (by simp), ih hxs.2 .nil⟩
  | case5 w ys ih =>
      rw [List.pairwise_cons] at hys
      exact List.pairwise_cons.mpr ⟨lt_visitKey (by simp) hys.1, ih .nil hys.2⟩
  | case6 => exact .nil

end Visited

section BinarySearch

variable {κ : Type} (compare : κ → κ → Int)

/-- `std::lower_bound` on a sorted table: the first element that is not below the key. -/
def lowerBound (table : List κ) (key : κ) : Nat := (table.takeWhile fun e => compare e key < 0).length

/-- `BinarySearch`, with the index in place of the pointer. -/
def binarySearch (table : List κ) (key : κ) : Option Nat :=
  if 0 < table.length then
    let iter := lowerBound compare table key
    match table[iter]? with
    | some e => if compare e key = 0 then some iter else none
    | none => none
  else none

end BinarySearch

section Search

variable {κ : Type} [LinearOrder κ] {compare : κ → κ → Int} {table : List κ} {key : κ} {i : Nat}

/-- On a sorted table the elements below a key that is in it are those in front of it. -/
theorem lowerBound_eq (hcompare : Compares compare) (hsorted : table.Pairwise (· < ·)) (hi : table[i]? = some key) :
    lowerBound compare table key = i := by
  induction table generalizing i with
  | nil => simp at hi
  | cons e table ih =>
      rw [List.pairwise_cons] at hsorted
      cases i with
      | zero =>
          simp only [List.getElem?_cons_zero, Option.some.injEq] at hi
          have hnot : ¬ compare e key < 0 := by rw [hcompare.neg_iff, hi]; exact lt_irrefl key
          simp [lowerBound, hnot]
      | succ i =>
          rw [List.getElem?_cons_succ] at hi
          have hlt : compare e key < 0 := (hcompare.neg_iff _ _).mpr (hsorted.1 key (List.mem_of_getElem? hi))
          have htail := ih hsorted.2 hi
          rw [lowerBound] at htail ⊢
          rw [List.takeWhile_cons_of_pos (by simpa using hlt), List.length_cons, htail]

theorem getElem?_of_binarySearch (hcompare : Compares compare) (h : binarySearch compare table key = some i) :
    table[i]? = some key := by
  simp only [binarySearch, Option.ite_none_right_eq_some] at h
  obtain ⟨-, h⟩ := h
  split at h
  · next e he =>
    simp only [Option.ite_none_right_eq_some, Option.some.injEq] at h
    obtain ⟨hzero, rfl⟩ := h
    rw [he, (hcompare.zero_iff _ _).mp hzero]
  · cases h

theorem binarySearch_eq_some (hcompare : Compares compare) (hsorted : table.Pairwise (· < ·)) :
    binarySearch compare table key = some i ↔ table[i]? = some key := by
  constructor
  · exact getElem?_of_binarySearch hcompare
  · intro h
    have hpos : 0 < table.length := by
      have := (List.getElem?_eq_some_iff.mp h).1
      omega
    have hzero : compare key key = 0 := (hcompare.zero_iff _ _).mpr rfl
    simp [binarySearch, hpos, lowerBound_eq hcompare hsorted h, h, hzero]

end Search

end Tundra
