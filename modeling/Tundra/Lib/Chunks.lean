import Mathlib.Data.List.Basic

/-!
# Streams in blocks

A stream is taken in block by block, and what is left over is shorter than a block. Taking in a stream in two
parts is taking in the first part, and then the rest of it with the second part behind.
-/

namespace Chunks

variable {α : Type} {n : Nat} {l : List α} {bs : List (List α)}

def blocks (n : Nat) (l : List α) : List (List α) := (List.range (l.length / n)).map fun k => (l.drop (n * k)).take n

/-- What is behind the last whole block. -/
def rest (n : Nat) (l : List α) : List α := l.drop (n * (l.length / n))

theorem length_rest (n : Nat) (l : List α) : (rest n l).length = l.length % n := by
  rw [rest, List.length_drop, Nat.mod_eq_sub]

theorem blocks_of_length_lt (h : l.length < n) : blocks n l = [] := by
  rw [blocks, Nat.div_eq_of_lt h]
  rfl

theorem rest_of_length_lt (h : l.length < n) : rest n l = l := by
  rw [rest, Nat.div_eq_of_lt h]
  rfl

theorem div_append_block {b : List α} (hn : 0 < n) (hb : b.length = n) (l : List α) :
    (b ++ l).length / n = l.length / n + 1 := by
  rw [List.length_append, hb, Nat.add_comm, Nat.add_div_right _ hn]

theorem blocks_append_block {b : List α} (hn : 0 < n) (hb : b.length = n) (l : List α) :
    blocks n (b ++ l) = b :: blocks n l := by
  rw [blocks, div_append_block hn hb, List.range_succ_eq_map, List.map_cons, List.map_map]
  congr 1
  · rw [Nat.mul_zero, List.drop_zero, ← hb, List.take_left]
  · apply List.map_congr_left
    intro k _
    change ((b ++ l).drop (n * (k + 1))).take n = (l.drop (n * k)).take n
    rw [Nat.mul_succ, Nat.add_comm, ← hb, List.drop_length_add_append]

theorem rest_append_block {b : List α} (hn : 0 < n) (hb : b.length = n) (l : List α) : rest n (b ++ l) = rest n l := by
  rw [rest, div_append_block hn hb, Nat.mul_succ, Nat.add_comm, rest]
  nth_rewrite 1 [← hb]
  rw [List.drop_length_add_append]

/-- A stream is its blocks and the rest in one way only. -/
theorem eq_of_flatten (hn : 0 < n) (hbs : ∀ b ∈ bs, b.length = n) {r : List α} (hr : r.length < n) :
    blocks n (bs.flatten ++ r) = bs ∧ rest n (bs.flatten ++ r) = r := by
  induction bs with
  | nil => exact ⟨blocks_of_length_lt hr, rest_of_length_lt hr⟩
  | cons b bs ih =>
      have hb := hbs b List.mem_cons_self
      obtain ⟨hblocks, hrest⟩ := ih fun b hb => hbs b (List.mem_cons_of_mem _ hb)
      rw [List.flatten_cons, List.append_assoc, blocks_append_block hn hb, rest_append_block hn hb, hblocks, hrest]
      exact ⟨rfl, rfl⟩

theorem length_of_mem_blocks {b : List α} (hb : b ∈ blocks n l) : b.length = n := by
  obtain ⟨k, hk, rfl⟩ := List.mem_map.mp hb
  have hle : n * (k + 1) ≤ l.length :=
    Nat.le_trans (Nat.mul_le_mul_left n (List.mem_range.mp hk)) (Nat.mul_div_le l.length n)
  rw [Nat.mul_succ] at hle
  rw [List.length_take, List.length_drop]
  omega

theorem flatten_blocks (n : Nat) (l : List α) : (blocks n l).flatten ++ rest n l = l := by
  rcases Nat.eq_zero_or_pos n with rfl | hn
  · simp [blocks, rest]
  induction hlen : l.length / n generalizing l with
  | zero =>
      have hlt : l.length < n := Nat.lt_of_div_eq_zero hn hlen
      rw [blocks_of_length_lt hlt, rest_of_length_lt hlt]
      rfl
  | succ k ih =>
      have hle : n ≤ l.length := by
        by_contra hlt
        rw [Nat.div_eq_of_lt (by omega)] at hlen
        cases hlen
      have hfirst : (l.take n).length = n := List.length_take_of_le hle
      have htail : (l.drop n).length / n = k := by
        rw [← List.take_append_drop n l, div_append_block hn hfirst] at hlen
        exact Nat.succ.inj hlen
      have hrest := ih (l.drop n) htail
      rw [← List.take_append_drop n l, blocks_append_block hn hfirst, rest_append_block hn hfirst, List.flatten_cons,
        List.append_assoc, hrest]

theorem blocks_append (hn : 0 < n) (l m : List α) :
    blocks n (l ++ m) = blocks n l ++ blocks n (rest n l ++ m) ∧ rest n (l ++ m) = rest n (rest n l ++ m) := by
  have hall : l ++ m = (blocks n l ++ blocks n (rest n l ++ m)).flatten ++ rest n (rest n l ++ m) := by
    rw [List.flatten_append, List.append_assoc, flatten_blocks, ← List.append_assoc, flatten_blocks]
  have hlength : ∀ b ∈ blocks n l ++ blocks n (rest n l ++ m), b.length = n := by
    intro b hb
    rcases List.mem_append.mp hb with hb | hb
    · exact length_of_mem_blocks hb
    · exact length_of_mem_blocks hb
  have hshort : (rest n (rest n l ++ m)).length < n := by
    rw [length_rest]
    exact Nat.mod_lt _ hn
  have hunique := eq_of_flatten hn hlength hshort
  rwa [← hall] at hunique

end Chunks
