import Mathlib.Data.List.Range
import Mathlib.Logic.Function.Basic

/-!
# Ring buffers

A buffer of `c` slots with a read and a write index, read as the list of the slots from the read index up to the
write index. Equal indices mean empty, so the buffer holds at most `c - 1` elements; the lemmas below say that
within that bound a push appends and a pop removes the head.
-/

namespace Ring

variable {α : Type}

/-- How many slots lie between the indices. -/
def length (c r w : Nat) : Nat := (w + c - r) % c

/-- The elements from the read index up to the write index, oldest first. -/
def contents (buf : Nat → α) (c r w : Nat) : List α :=
  (List.range (length c r w)).map fun k => buf ((r + k) % c)

@[simp] theorem length_contents (buf : Nat → α) (c r w : Nat) : (contents buf c r w).length = length c r w := by
  simp only [contents, List.length_map, List.length_range]

theorem length_eq {c r w : Nat} (hr : r < c) (hw : w < c) : length c r w = if r ≤ w then w - r else w + c - r := by
  unfold length
  split
  · rw [show w + c - r = (w - r) + c by omega, Nat.add_mod_right, Nat.mod_eq_of_lt (by omega)]
  · exact Nat.mod_eq_of_lt (by omega)

theorem length_lt {c r w : Nat} (hr : r < c) (hw : w < c) : length c r w < c := by
  rw [length_eq hr hw]
  split <;> omega

theorem succ_mod_eq {c i : Nat} (hi : i < c) : (i + 1) % c = if i + 1 = c then 0 else i + 1 := by
  split
  · next h => rw [h, Nat.mod_self]
  · exact Nat.mod_eq_of_lt (by omega)

theorem length_push {c r w : Nat} (hr : r < c) (hw : w < c) (hroom : length c r w + 1 < c) :
    length c r ((w + 1) % c) = length c r w + 1 := by
  have hlt : (w + 1) % c < c := Nat.mod_lt _ (by omega)
  rw [length_eq hr hw] at hroom
  rw [length_eq hr hlt, length_eq hr hw, succ_mod_eq hw]
  split at hroom <;> split <;> split <;> omega

theorem length_pop {c r w : Nat} (hr : r < c) (hw : w < c) (hsome : 0 < length c r w) :
    length c ((r + 1) % c) w + 1 = length c r w := by
  have hlt : (r + 1) % c < c := Nat.mod_lt _ (by omega)
  rw [length_eq hr hw] at hsome
  rw [length_eq hlt hw, length_eq hr hw, succ_mod_eq hr]
  split at hsome <;> split <;> split <;> omega

/-- The slot `length` places behind the read index is the one the next push writes. -/
theorem slot_write {c r w : Nat} (hr : r < c) (hw : w < c) : (r + length c r w) % c = w := by
  rw [length_eq hr hw]
  split
  · rw [show r + (w - r) = w by omega, Nat.mod_eq_of_lt hw]
  · rw [show r + (w + c - r) = w + c by omega, Nat.add_mod_right, Nat.mod_eq_of_lt hw]

theorem slot_ne_write {c r w k : Nat} (hr : r < c) (hw : w < c) (hk : k < length c r w) : (r + k) % c ≠ w := by
  have hlen := length_lt hr hw
  intro heq
  have hslot : (r + k) % c = if r + k < c then r + k else r + k - c := by
    split
    · exact Nat.mod_eq_of_lt (by assumption)
    · rw [Nat.mod_eq_sub_mod (by omega), Nat.mod_eq_of_lt (by omega)]
  rw [hslot] at heq
  rw [length_eq hr hw] at hk
  split at heq <;> split at hk <;> omega

theorem contents_push (buf : Nat → α) {c r w : Nat} (x : α) (hr : r < c) (hw : w < c) (hroom : length c r w + 1 < c) :
    contents (Function.update buf w x) c r ((w + 1) % c) = contents buf c r w ++ [x] := by
  rw [contents, length_push hr hw hroom, List.range_succ, List.map_append, contents]
  congr 1
  · apply List.map_congr_left
    intro k hk
    exact Function.update_of_ne (slot_ne_write hr hw (List.mem_range.mp hk)) _ _
  · simp only [List.map_cons, List.map_nil, slot_write hr hw, Function.update_self]

theorem contents_pop (buf : Nat → α) {c r w : Nat} (hr : r < c) (hw : w < c) (hsome : 0 < length c r w) :
    contents buf c r w = buf r :: contents buf c ((r + 1) % c) w := by
  rw [contents, ← length_pop hr hw hsome, List.range_succ_eq_map, List.map_cons, Nat.add_zero, Nat.mod_eq_of_lt hr,
    List.map_map, contents]
  congr 1
  apply List.map_congr_left
  intro k _
  simp only [Function.comp_apply, Nat.mod_add_mod, Nat.succ_eq_add_one]
  rw [show r + (k + 1) = r + 1 + k by omega]

theorem contents_self (buf : Nat → α) {c i : Nat} (hi : i < c) : contents buf c i i = [] := by
  rw [contents, length_eq hi hi, if_pos le_rfl, Nat.sub_self, List.range_zero, List.map_nil]

theorem contents_filled (buf : Nat → α) {c n : Nat} (hn : n < c) : contents buf c 0 n = (List.range n).map buf := by
  have hlen : length c 0 n = n := by
    rw [length_eq (by omega) hn]
    simp only [Nat.zero_le, if_true, Nat.sub_zero]
  rw [contents, hlen]
  apply List.map_congr_left
  intro k hk
  rw [Nat.zero_add, Nat.mod_eq_of_lt (lt_trans (List.mem_range.mp hk) hn)]

end Ring
