import Mathlib.Data.List.Basic
import Mathlib.Data.List.GetD
import Mathlib.Data.List.Pairwise

/-!
# Blocks in one memory

What the user of an allocator sees are blocks that have nothing to do with each other. The memory behind them is
one function from addresses to cells, and the blocks are spans in it. As long as the spans follow one after the
other, writing to one of them, and handing out another one behind them, leaves the blocks what they are.

A heap whose blocks are given up in the order opposite to that in which they were handed out has scopes: the
blocks that were handed out since a scope was entered go when it is left.
-/

namespace Arena

variable {α : Type}

/-- Cells from an address on. -/
def read (mem : Nat → α) (start size : Nat) : List α := (List.range size).map fun i => mem (start + i)

/-- Put cells from an address on. -/
def write (mem : Nat → α) (start : Nat) (data : List α) :
    Nat → α := fun a => if start ≤ a then data.getD (a - start) (mem a) else mem a

structure Span where
  start : Nat
  size : Nat
deriving DecidableEq

def Span.stop (s : Span) : Nat := s.start + s.size

variable {mem : Nat → α} {spans : List Span} {blocks : List (List α)} {s : Span} {start size i p : Nat}
  {data : List α} {a : α}

@[simp] theorem length_read : (read mem start size).length = size := by simp [read]

theorem write_of_lt {addr : Nat} (h : addr < start) : write mem start data addr = mem addr := if_neg (Nat.not_le.mpr h)

theorem write_of_ge {addr : Nat} (h : start + data.length ≤ addr) : write mem start data addr = mem addr := by
  rw [write, if_pos (by omega), List.getD_eq_default _ _ (by omega)]

theorem write_of_mem {k : Nat} (h : k < data.length) : write mem start data (start + k) = data[k] := by
  rw [write, if_pos (Nat.le_add_right _ _), Nat.add_sub_cancel_left, List.getD_eq_getElem _ _ h]

theorem read_congr {mem' : Nat → α} (h : ∀ k < size, mem' (start + k) = mem (start + k)) :
    read mem' start size = read mem start size :=
  List.map_congr_left fun k hk => h k (List.mem_range.mp hk)

theorem read_write (mem : Nat → α) (start : Nat) (data : List α) :
    read (write mem start data) start data.length = data := by
  apply List.ext_getElem
  · exact length_read
  · intro k hk hk'
    simp only [read, List.getElem_map, List.getElem_range]
    exact write_of_mem hk'

theorem write_read (mem : Nat → α) (start size : Nat) : write mem start (read mem start size) = mem := by
  funext addr
  by_cases hlt : addr < start
  · exact write_of_lt hlt
  · by_cases hin : addr < start + size
    · obtain ⟨k, rfl⟩ := Nat.exists_eq_add_of_le (Nat.not_lt.mp hlt)
      rw [write_of_mem (by rw [length_read]; omega)]
      simp [read]
    · exact write_of_ge (by rw [length_read]; omega)

theorem read_write_of_apart {pos : Nat} (h : start + size ≤ pos ∨ pos + data.length ≤ start) :
    read (write mem pos data) start size = read mem start size := by
  apply read_congr
  intro k hk
  rcases h with h | h
  · exact write_of_lt (by omega)
  · exact write_of_ge (by omega)

theorem read_write_cell : read (write mem (start + p) [a]) start size = (read mem start size).set p a := by
  apply List.ext_getElem
  · simp
  · intro k hk hk'
    rw [length_read] at hk
    rw [List.getElem_set]
    simp only [read, List.getElem_map, List.getElem_range]
    by_cases hkp : p = k
    · subst hkp
      rw [if_pos rfl]
      exact @write_of_mem α mem (start + p) [a] 0 Nat.zero_lt_one
    · rw [if_neg hkp]
      by_cases hlt : k < p
      · exact write_of_lt (by omega)
      · exact write_of_ge (by rw [List.length_singleton]; omega)

/-- The blocks in the memory, one behind the other. -/
structure Holds (mem : Nat → α) (spans : List Span) (blocks : List (List α)) : Prop where
  ascending : spans.Pairwise fun l r => l.stop ≤ r.start
  contents : spans.map (fun s => read mem s.start s.size) = blocks

theorem Holds.nil : Holds mem [] [] := ⟨.nil, rfl⟩

theorem Holds.length (h : Holds mem spans blocks) :
    spans.length = blocks.length := by rw [← h.contents, List.length_map]

theorem Holds.take (h : Holds mem spans blocks) (n : Nat) : Holds mem (spans.take n) (blocks.take n) :=
  ⟨h.ascending.sublist (List.take_sublist n spans), by rw [← h.contents, List.map_take]⟩

theorem Holds.allocate (h : Holds mem spans blocks) (hbehind : ∀ t ∈ spans, t.stop ≤ start) (data : List α) :
    Holds (write mem start data) (spans ++ [⟨start, data.length⟩]) (blocks ++ [data]) := by
  constructor
  · refine List.pairwise_append.mpr ⟨h.ascending, List.pairwise_singleton _ _, fun l hl r hr => ?_⟩
    rw [List.mem_singleton.mp hr]
    exact hbehind l hl
  · rw [List.map_append, List.map_singleton, read_write, ← h.contents]
    congr 1
    exact List.map_congr_left fun t ht => read_write_of_apart (.inl (hbehind t ht))

theorem Holds.store (h : Holds mem spans blocks) (hi : spans[i]? = some s) (hp : p < s.size) (a : α) :
    Holds (write mem (s.start + p) [a]) spans (blocks.modify i (·.set p a)) := by
  refine ⟨h.ascending, ?_⟩
  obtain ⟨hlt, rfl⟩ := List.getElem?_eq_some_iff.mp hi
  rw [← h.contents]
  apply List.ext_getElem
  · simp
  · intro k hk hk'
    rw [List.length_map] at hk
    rw [List.getElem_modify, List.getElem_map, List.getElem_map]
    have hpairwise := List.pairwise_iff_getElem.mp h.ascending
    rcases Nat.lt_trichotomy i k with hik | rfl | hik
    · rw [if_neg (by omega)]
      have hapart := hpairwise i k hlt hk hik
      rw [Span.stop] at hapart
      exact read_write_of_apart (.inr (by rw [List.length_singleton]; omega))
    · rw [if_pos rfl]
      exact read_write_cell
    · rw [if_neg (by omega)]
      have hapart := hpairwise k i hk hlt hik
      rw [Span.stop] at hapart
      exact read_write_of_apart (.inl (by omega))

/-! ### Heaps with scopes -/

/-- The blocks, and how many there were when the scopes were entered, the innermost scope first. -/
structure Heap (α : Type) where
  blocks : List (List α)
  scopes : List Nat

namespace Heap

variable (h : Heap α)

def init : Heap α := ⟨[], []⟩

def allocate (data : List α) : Heap α := { h with blocks := h.blocks ++ [data] }

def store (i p : Nat) (a : α) : Heap α := { h with blocks := h.blocks.modify i (·.set p a) }

def enter : Heap α := { h with scopes := h.blocks.length :: h.scopes }

def leave : Heap α := ⟨h.blocks.take (h.scopes.headD 0), h.scopes.tail⟩

def reset : Heap α := ⟨[], h.scopes.map fun _ => 0⟩

end Heap

end Arena
