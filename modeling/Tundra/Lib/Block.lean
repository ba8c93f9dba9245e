import Mathlib.Data.List.Basic

/-!
# Blocks of memory

A block has a fixed number of cells. Reading and writing runs of cells has no value where a run does not lie in
the block. A program that fills a block from the front is followed by the cells in front of the place where it
writes, and one that works in a part of the block by what it does to that part.
-/

structure Block (α : Type) (size : Nat) where
  cells : List α
  length_cells : cells.length = size
deriving DecidableEq

namespace Block

variable {α : Type} {size pos len n : Nat} {b b' : Block α size} {data : List α}

/-- A list with a run of its elements replaced. -/
def splice (l : List α) (pos : Nat) (data : List α) : List α := l.take pos ++ data ++ l.drop (pos + data.length)

theorem length_splice {l : List α} (h : pos + data.length ≤ l.length) : (splice l pos data).length = l.length := by
  rw [splice, List.length_append, List.length_append, List.length_take, List.length_drop]
  omega

theorem take_splice {l : List α} (h : pos + data.length ≤ n) (hn : n ≤ l.length) :
    (splice l pos data).take n = splice (l.take n) pos data := by
  have hlength : (l.take pos ++ data).length = pos + data.length := by
    rw [List.length_append, List.length_take]
    omega
  rw [splice, splice, List.take_append, List.take_of_length_le (by omega), List.take_take, Nat.min_eq_left (by omega),
    hlength,
    List.drop_take]

theorem take_splice_end {l : List α} (hpos : pos ≤ l.length) (data : List α) :
    (splice l pos data).take (pos + data.length) = l.take pos ++ data := by
  rw [splice]
  exact List.take_left' (by rw [List.length_append, List.length_take_of_le hpos])

theorem drop_splice {l : List α} (hpos : pos ≤ l.length) (hn : pos + data.length ≤ n) :
    (splice l pos data).drop n = l.drop n := by
  have hlength : (l.take pos ++ data).length = pos + data.length := by
    rw [List.length_append, List.length_take_of_le hpos]
  rw [splice, List.drop_append, List.drop_of_length_le (by omega), List.nil_append, hlength, List.drop_drop]
  congr 1
  omega

theorem splice_splice {l : List α} (hpos : pos ≤ l.length) (data more : List α) :
    splice (splice l pos data) (pos + data.length) more = splice l pos (data ++ more) := by
  have hlength : (l.take pos ++ data).length = pos + data.length := by
    rw [List.length_append, List.length_take]
    omega
  have hdrop : (l.take pos ++ data ++ l.drop (pos + data.length)).drop (pos + data.length + more.length) =
      l.drop (pos + (data ++ more).length) := by
    rw [List.drop_append, List.drop_of_length_le (by omega), List.nil_append, hlength, List.drop_drop,
      List.length_append]
    congr 1
    omega
  rw [splice, splice, hdrop, List.take_left' hlength, splice, List.append_assoc (l.take pos)]

theorem length_write {l : List α} (hl : l.length = size) (h : pos + data.length ≤ size) :
    (splice l pos data).length = size := by
  rw [length_splice (by omega), hl]

def write (b : Block α size) (pos : Nat) (data : List α) : Option (Block α size) :=
  if h : pos + data.length ≤ size then some ⟨splice b.cells pos data, length_write b.length_cells h⟩ else none

def read (b : Block α size) (pos len : Nat) :
    Option (List α) := if pos + len ≤ size then some ((b.cells.drop pos).take len) else none

theorem length_realloc {cells : List α} (size' : Nat) (fill : α) :
    ((cells ++ List.replicate (size' - cells.length) fill).take size').length = size' := by
  rw [List.length_take, List.length_append, List.length_replicate]
  omega

/-- A block of another size with the same cells as far as these go. -/
def realloc (b : Block α size) (size' : Nat) (fill : α) : Block α size' :=
  ⟨(b.cells ++ List.replicate (size' - b.cells.length) fill).take size', length_realloc size' fill⟩

theorem write_eq_some (b : Block α size) (h : pos + data.length ≤ size) :
    ∃ b', b.write pos data = some b' ∧ b'.cells = splice b.cells pos data := by
  rw [write, dif_pos h]
  exact ⟨_, rfl, rfl⟩

theorem write_isSome (b : Block α size) (h : pos + data.length ≤ size) : ∃ b', b.write pos data = some b' := by
  obtain ⟨b', hwrite, -⟩ := b.write_eq_some h
  exact ⟨b', hwrite⟩

theorem write_eq_none (h : size < pos + data.length) : b.write pos data = none := by
  rw [write, dif_neg (by omega)]

theorem cells_write (h : b.write pos data = some b') :
    pos + data.length ≤ size ∧ b'.cells = splice b.cells pos data := by
  rw [write] at h
  split_ifs at h with hfits
  cases h
  exact ⟨hfits, rfl⟩

theorem length_take_cells (h : n ≤ size) : (b.cells.take n).length = n := by
  rw [List.length_take, b.length_cells, Nat.min_eq_left h]

theorem take_realloc (b : Block α size) {size' : Nat} (fill : α) (hn : n ≤ size) (hn' : n ≤ size') :
    (b.realloc size' fill).cells.take n = b.cells.take n := by
  rw [realloc, List.take_take, Nat.min_eq_left hn', List.take_append_of_le_length (by rw [b.length_cells]; exact hn)]

theorem take_write (h : b.write pos data = some b') : b'.cells.take (pos + data.length) = b.cells.take pos ++ data := by
  obtain ⟨hfits, hcells⟩ := cells_write h
  have hlength : (b.cells.take pos).length = pos := length_take_cells (by omega)
  rw [hcells, splice]
  exact List.take_left' (by rw [List.length_append, hlength])

theorem read_eq_some (h : pos + len ≤ size) : b.read pos len = some ((b.cells.drop pos).take len) := if_pos h

/-- A run is read from the cells in front of a place behind it. -/
theorem read_of_take {l : List α} (hn : n ≤ size) (h : b.cells.take n = l) (hlen : pos + len ≤ n) :
    b.read pos len = some ((l.drop pos).take len) := by
  rw [read_eq_some (by omega), ← h, List.drop_take, List.take_take]
  congr 2
  omega

/-- The cell at a place in front of another one. -/
theorem getElem?_of_take {l : List α} (h : b.cells.take n = l) (hpos : pos < n) : b.cells[pos]? = l[pos]? := by
  rw [← h, List.getElem?_take_of_lt hpos]

end Block
