import Tundra.Lua.StringMemory
import Mathlib.Data.List.Induction
import Mathlib.Data.List.TakeDrop

/-!
# String buffers in memory hold texts

What a buffer in memory does is what `StringBuffer` says, operation by operation.
-/

namespace Tundra

open Block (splice)

namespace StringBuffer

variable {b : StringBuffer} {text text' : List UInt8}

/-! ### Texts in place of texts -/

theorem contents_eq_internal (h : b.heap = []) : b.contents = b.internal := if_pos h

theorem contents_eq_heap (h : b.heap ≠ []) : b.contents = b.heap := if_neg h

/-- What a buffer has after a text was put in place of a longer one: a buffer on the heap without a text shows
what is in the object. -/
theorem contents_overwritten (h : text.length ≤ b.contents.length) :
    (b.overwritten text).contents = if b.heap ≠ [] ∧ text = [] then b.internal else text := by
  rw [overwritten]
  by_cases hheap : b.heap = []
  · rw [contents_eq_internal hheap] at h
    rw [if_pos hheap, if_neg (fun hboth => hboth.1 hheap)]
    exact List.take_of_length_le h
  · rw [if_neg hheap, contents]
    by_cases htext : text = []
    · rw [if_pos htext, if_pos ⟨hheap, htext⟩]
    · rw [if_neg htext, if_neg fun hboth => htext hboth.2]

theorem contents_overwritten_eq (h : text.length = b.contents.length) : (b.overwritten text).contents = text := by
  rw [contents_overwritten h.le]
  refine if_neg fun ⟨hheap, htext⟩ => hheap ?_
  rw [htext, contents_eq_heap hheap] at h
  exact List.eq_nil_of_length_eq_zero h.symm

theorem overwritten_overwritten (h : text.length = b.contents.length) (text' : List UInt8) :
    (b.overwritten text).overwritten text' = b.overwritten text' := by
  unfold overwritten
  by_cases hheap : b.heap = []
  · rw [contents_eq_internal hheap] at h
    simp only [hheap, if_true, h, List.length_take, Nat.min_self]
  · rw [contents_eq_heap hheap] at h
    have htext : text ≠ [] := by
      rintro rfl
      exact hheap (List.eq_nil_of_length_eq_zero h.symm)
    simp only [hheap, if_false, htext]

theorem overwritten_shortened (h : text.length ≤ b.contents.length) (htext : text ≠ [])
    (h' : text'.length = text.length) :
    (b.overwritten text).overwritten text' = b.overwritten text' := by
  unfold overwritten
  by_cases hheap : b.heap = []
  · rw [contents_eq_internal hheap] at h
    simp only [hheap, if_true, List.length_take, Nat.min_eq_right h, StringBuffer.mk.injEq, and_true]
    rw [List.take_of_length_le h'.le, List.take_of_length_le (h'.trans_le h)]
  · simp only [hheap, if_false, htext]

theorem overwritten_contents (b : StringBuffer) : b.overwritten b.contents = b := by
  unfold overwritten
  by_cases hheap : b.heap = []
  · obtain ⟨internal, heap, hfits⟩ := b
    cases hheap
    simp [contents]
  · rw [if_neg hheap, contents_eq_heap hheap]

theorem grown_overwritten (h : b.contents.length ≤ text.length) (h' : text'.length = text.length) :
    (b.grown text).overwritten text' = b.grown text' := by
  unfold grown
  by_cases hfits : b.heap = [] ∧ text.length ≤ kInternalBufferSize
  · have hfits' : b.heap = [] ∧ text'.length ≤ kInternalBufferSize := ⟨hfits.1, h'.trans_le hfits.2⟩
    rw [dif_pos hfits, dif_pos hfits', overwritten, if_pos rfl]
    simp only [StringBuffer.mk.injEq, and_true]
    exact List.take_of_length_le h'.le
  · have hfits' : ¬(b.heap = [] ∧ text'.length ≤ kInternalBufferSize) :=
      fun hboth => hfits ⟨hboth.1, h'.symm.trans_le hboth.2⟩
    have htext : text ≠ [] := by
      rintro rfl
      by_cases hheap : b.heap = []
      · exact hfits ⟨hheap, Nat.zero_le _⟩
      · rw [contents_eq_heap hheap] at h
        exact hheap (List.eq_nil_of_length_eq_zero (Nat.le_zero.mp h))
    rw [dif_neg hfits, dif_neg hfits', overwritten, if_neg htext]

/-! ### The last byte of a kind -/

theorem beforeLast_nil (p : UInt8 → Bool) : beforeLast p [] = none := rfl

theorem beforeLast_concat (p : UInt8 → Bool) (text : List UInt8) (ch : UInt8) :
    beforeLast p (text ++ [ch]) = if p ch then some text else beforeLast p text := by
  unfold beforeLast
  rw [List.reverse_append, List.reverse_singleton, List.singleton_append, List.dropWhile_cons]
  cases p ch with
  | true => simp
  | false => simp

theorem beforeLast_eq_take {p : UInt8 → Bool} {front : List UInt8} (h : beforeLast p text = some front) :
    text.take front.length = front ∧ front.length < text.length := by
  induction text using List.reverseRecOn with
  | nil => cases h
  | append_singleton text ch ih =>
      rw [beforeLast_concat] at h
      rw [List.length_append, List.length_singleton]
      split_ifs at h
      · cases h
        exact ⟨List.take_left' rfl, Nat.lt_succ_self _⟩
      · obtain ⟨htake, hlength⟩ := ih h
        exact ⟨by rw [List.take_append_of_le_length hlength.le, htake], by omega⟩

/-! ### Doubled backslashes -/

/-- What becomes of a byte of a text that is quoted. -/
def doubled (ch : UInt8) : List UInt8 := if ch = 92 then [92, 92] else [ch]

theorem length_flatMap_doubled (text : List UInt8) : (text.flatMap doubled).length = text.length + text.count 92 := by
  induction text with
  | nil => rfl
  | cons ch rest ih =>
      rw [List.flatMap_cons, List.length_append, ih, List.count_cons, doubled, List.length_cons]
      by_cases hch : ch = 92
      · simp only [hch, if_true, List.length_cons, List.length_nil, beq_self_eq_true]
        omega
      · simp only [hch, if_false, List.length_cons, List.length_nil, beq_iff_eq]
        omega

end StringBuffer

/-! ### What memory holds -/

/-- A buffer in memory with its two texts. -/
structure HoldsBuffer (m : StringMemory) (b : StringBuffer) : Prop where
  used : m.used = b.internal.length
  internal : m.internal.cells.take m.used = b.internal
  size : m.size = b.heap.length
  heap : m.storage.cells.take m.size = b.heap

namespace HoldsBuffer

open StringBuffer

variable {m : StringMemory} {b : StringBuffer} {pos len n : Nat} {data : List UInt8}

theorem size_ne_zero_iff (h : HoldsBuffer m b) : m.size ≠ 0 ↔ b.heap ≠ [] := by
  rw [h.size, Ne, List.length_eq_zero_iff]

theorem used_le (h : HoldsBuffer m b) : m.used ≤ kInternalBufferSize := h.used.trans_le b.internal_fits

theorem size_le (h : HoldsBuffer m b) : m.size ≤ m.capacity := by
  have hlength := congrArg List.length h.heap
  rw [List.length_take, m.storage.length_cells, ← h.size] at hlength
  omega

theorem getSize (h : HoldsBuffer m b) : m.getSize = b.contents.length := by
  rw [StringMemory.getSize, contents]
  by_cases hheap : b.heap = []
  · rw [if_neg (fun hsize => h.size_ne_zero_iff.mp hsize hheap), if_pos hheap, h.used]
  · rw [if_pos (h.size_ne_zero_iff.mpr hheap), if_neg hheap, h.size]

theorem read (h : HoldsBuffer m b) (hlen : pos + len ≤ b.contents.length) :
    m.read pos len = some ((b.contents.drop pos).take len) := by
  rw [StringMemory.read]
  by_cases hheap : b.heap = []
  · rw [contents_eq_internal hheap, ← h.used] at hlen
    rw [if_neg (fun hsize => h.size_ne_zero_iff.mp hsize hheap), contents_eq_internal hheap]
    exact Block.read_of_take h.used_le h.internal hlen
  · rw [contents_eq_heap hheap, ← h.size] at hlen
    rw [if_pos (h.size_ne_zero_iff.mpr hheap), contents_eq_heap hheap]
    exact Block.read_of_take h.size_le h.heap hlen

theorem write (h : HoldsBuffer m b) (pos : Nat) (data : List UInt8) (hfits : pos + data.length ≤ b.contents.length) :
    ∃ m', m.write pos data = some m' ∧ HoldsBuffer m' (b.overwritten (splice b.contents pos data)) := by
  rw [StringMemory.write, overwritten]
  by_cases hheap : b.heap = []
  · have hcontents := contents_eq_internal hheap
    rw [hcontents] at hfits ⊢
    have hle := h.used_le
    have hused := h.used
    obtain ⟨internal, hwrite, hcells⟩ :=
      m.internal.write_eq_some (show pos + data.length ≤ kInternalBufferSize by omega)
    have hlength := Block.length_splice hfits
    rw [if_neg (fun hsize => h.size_ne_zero_iff.mp hsize hheap), if_pos hheap, hwrite]
    refine ⟨_, rfl, ?_, ?_, ?_, ?_⟩
    · simp only [List.length_take, hlength, Nat.min_self]
      exact hused
    · simp only [hcells]
      rw [Block.take_splice (by omega) (by rw [m.internal.length_cells]; exact hle), h.internal,
        List.take_of_length_le hlength.le]
    · simp only [h.size, hheap]
    · rw [← hheap]
      exact h.heap
  · have hcontents := contents_eq_heap hheap
    rw [hcontents] at hfits ⊢
    have hle := h.size_le
    have hsize := h.size
    obtain ⟨storage, hwrite, hcells⟩ := m.storage.write_eq_some (show pos + data.length ≤ m.capacity by omega)
    rw [if_pos (h.size_ne_zero_iff.mpr hheap), if_neg hheap, hwrite]
    refine ⟨_, rfl, h.used, h.internal, ?_, ?_⟩
    · rw [Block.length_splice hfits]
      exact hsize
    · simp only [hcells]
      rw [Block.take_splice (by omega) (by rw [m.storage.length_cells]; exact hle), h.heap]

theorem shrink (h : HoldsBuffer m b) (hn : n ≤ b.contents.length) :
    HoldsBuffer (m.shrink n) (b.overwritten (b.contents.take n)) := by
  rw [StringMemory.shrink, overwritten]
  by_cases hheap : b.heap = []
  · have hcontents := contents_eq_internal hheap
    rw [hcontents] at hn ⊢
    have hused := h.used
    rw [if_neg (fun hsize => h.size_ne_zero_iff.mp hsize hheap), if_pos hheap]
    refine ⟨?_, ?_, ?_, ?_⟩
    · simp only [List.length_take]
      omega
    · simp only [List.take_take, Nat.min_eq_right hn]
      rw [← h.internal, List.take_take, Nat.min_eq_left (by omega)]
    · simp only [h.size, hheap]
    · rw [← hheap]
      exact h.heap
  · have hcontents := contents_eq_heap hheap
    rw [hcontents] at hn ⊢
    have hsize := h.size
    rw [if_pos (h.size_ne_zero_iff.mpr hheap), if_neg hheap]
    refine ⟨h.used, h.internal, ?_, ?_⟩
    · simp only [List.length_take]
      omega
    · simp only
      rw [← h.heap, List.take_take, Nat.min_eq_left (by omega)]

/-! ### Growing -/

theorem bufferAlloc_spec (m : StringMemory) (count : Nat) (hsize : m.size ≤ m.capacity) :
    (m.bufferAlloc count).used = m.used ∧
    (m.bufferAlloc count).internal = m.internal ∧ (m.bufferAlloc count).size = m.size + count ∧
    m.size + count ≤ (m.bufferAlloc count).capacity ∧
    (m.bufferAlloc count).storage.cells.take m.size = m.storage.cells.take m.size := by
  by_cases hfull : m.size + count > m.capacity
  · have hcapacity : m.size + count ≤ StringMemory.newCapacity m.capacity (m.size + count) := le_max_right _ _
    rw [show m.bufferAlloc count = _ from if_pos hfull]
    exact ⟨rfl, rfl, rfl, hcapacity, m.storage.take_realloc 0 hsize ((Nat.le_add_right _ _).trans hcapacity)⟩
  · rw [show m.bufferAlloc count = _ from if_neg hfull]
    exact ⟨rfl, rfl, rfl, Nat.le_of_not_lt hfull, rfl⟩

theorem grow (h : HoldsBuffer m b) (len : Nat) :
    ∃ m' tail, m.grow len = some (m', b.contents.length) ∧ tail.length = len ∧
    HoldsBuffer m' (b.grown (b.contents ++ tail)) := by
  have hle := h.size_le
  have hused := h.used
  have hsize := h.size
  rw [StringMemory.grow]
  by_cases hheap : b.heap = []
  · have hcontents := contents_eq_internal hheap
    have hzero : m.size = 0 := hsize.trans (by rw [hheap]; rfl)
    have hinternal := h.used_le
    rw [if_neg (fun hne => hne hzero), hcontents]
    by_cases hfits : len + m.used ≤ kInternalBufferSize
    · have hlength : (m.internal.cells.take (m.used + len)).length = m.used + len := Block.length_take_cells (by omega)
      have htail : m.internal.cells.take (m.used + len) = b.internal ++ (m.internal.cells.drop m.used).take len := by
        rw [List.take_add, h.internal]
      rw [if_pos hfits]
      refine ⟨{ m with used := m.used + len }, (m.internal.cells.drop m.used).take len, by rw [hused], ?_, ?_⟩
      · rw [List.length_take, List.length_drop, m.internal.length_cells]
        omega
      · have hboth : b.heap = [] ∧
          (b.internal ++ (m.internal.cells.drop m.used).take len).length ≤ kInternalBufferSize :=
          ⟨hheap, by rw [← htail, hlength]; omega⟩
        rw [grown, dif_pos hboth]
        refine ⟨?_, htail, hzero, ?_⟩
        · simp only [← htail, hlength]
        · simp only [hzero, List.take_zero]
    · have hread : m.internal.read 0 m.used = some b.internal := by
        rw [Block.read_of_take hinternal h.internal (Nat.zero_add _).le, List.drop_zero,
          List.take_of_length_le hused.symm.le]
      obtain ⟨hused₁, hinternal₁, hsize₁, hcapacity₁, -⟩ := bufferAlloc_spec m m.used hle
      rw [hzero, Nat.zero_add] at hsize₁ hcapacity₁
      obtain ⟨storage, hwrite⟩ := (m.bufferAlloc m.used).storage.write_isSome (show 0 + b.internal.length ≤ _ by omega)
      have hstart := Block.take_write hwrite
      rw [Nat.zero_add, List.take_zero, List.nil_append] at hstart
      set m₁ : StringMemory := { m.bufferAlloc m.used with storage := storage } with hm₁
      have hcapacity : m₁.size ≤ m₁.capacity := hsize₁.trans_le hcapacity₁
      obtain ⟨hused₂, hinternal₂, hsize₂, hcapacity₂, hkept⟩ := bufferAlloc_spec m₁ len hcapacity
      have hsizeUsed : m₁.size = m.used := hsize₁
      have htext : m₁.storage.cells.take m₁.size = b.internal := by
        rw [hsizeUsed, hused]
        exact hstart
      have htail : (m₁.bufferAlloc len).storage.cells.take (m₁.bufferAlloc len).size =
          b.internal ++ ((m₁.bufferAlloc len).storage.cells.drop m₁.size).take len := by
        rw [hsize₂, List.take_add, hkept, htext]
      have hlength : (((m₁.bufferAlloc len).storage.cells.drop m₁.size).take len).length = len := by
        rw [List.length_take, List.length_drop, Block.length_cells]
        omega
      rw [if_neg hfits, hread, Option.bind_some, hwrite, Option.map_some]
      refine ⟨m₁.bufferAlloc len, ((m₁.bufferAlloc len).storage.cells.drop m₁.size).take len,
        congrArg (fun n => some (m₁.bufferAlloc len, n)) hused, hlength, ?_⟩
      rw [grown, dif_neg fun hboth => hfits (by have := hboth.2; rw [List.length_append, hlength] at this; omega)]
      refine ⟨?_, ?_, ?_, htail⟩
      · rw [hused₂]
        exact hused₁.trans hused
      · rw [hused₂, hinternal₂]
        simp only [hm₁, hused₁, hinternal₁]
        exact h.internal
      · simp only [List.length_append, hlength]
        rw [hsize₂, hsizeUsed, hused]
  · have hcontents := contents_eq_heap hheap
    obtain ⟨hused₁, hinternal₁, hsize₁, hcapacity₁, hkept⟩ := bufferAlloc_spec m len hle
    have htail : (m.bufferAlloc len).storage.cells.take (m.bufferAlloc len).size =
        b.heap ++ ((m.bufferAlloc len).storage.cells.drop m.size).take len := by
      rw [hsize₁, List.take_add, hkept, h.heap]
    have hlength : (((m.bufferAlloc len).storage.cells.drop m.size).take len).length = len := by
      rw [List.length_take, List.length_drop, Block.length_cells]
      omega
    rw [if_pos (h.size_ne_zero_iff.mpr hheap), hcontents]
    refine ⟨m.bufferAlloc len, ((m.bufferAlloc len).storage.cells.drop m.size).take len, by rw [hsize], hlength, ?_⟩
    rw [grown, dif_neg fun hboth => hheap hboth.1]
    refine ⟨hused₁.trans hused, ?_, ?_, htail⟩
    · rw [hused₁, hinternal₁]
      exact h.internal
    · simp only [List.length_append, hlength]
      rw [hsize₁, hsize]

theorem write_grown {text : List UInt8} (h : HoldsBuffer m (b.grown text)) (pos : Nat) (data : List UInt8)
    (htext : b.contents.length ≤ text.length) (hfits : pos + data.length ≤ text.length) :
    ∃ m', m.write pos data = some m' ∧ HoldsBuffer m' (b.grown (splice text pos data)) := by
  have hcontents := contents_grown htext
  obtain ⟨m', hwrite, hholds⟩ := h.write pos data (hfits.trans_eq (congrArg List.length hcontents).symm)
  rw [hcontents, grown_overwritten htext (Block.length_splice hfits)] at hholds
  exact ⟨m', hwrite, hholds⟩

theorem add (h : HoldsBuffer m b) (data : List UInt8) : ∃ m', m.add data = some m' ∧ HoldsBuffer m' (b.add data) := by
  obtain ⟨m₁, tail, hgrow, htail, hholds⟩ := h.grow data.length
  obtain ⟨m', hwrite, hholds'⟩ := hholds.write_grown b.contents.length data (by rw [List.length_append]; omega)
    (by rw [List.length_append, htail])
  refine ⟨m', ?_, ?_⟩
  · simp only [StringMemory.add, hgrow, Option.bind_eq_bind, Option.bind_some, hwrite]
  · rw [splice, List.take_left' rfl, List.drop_of_length_le (by rw [List.length_append, htail]),
      List.append_nil] at hholds'
    exact hholds'

theorem prepend (h : HoldsBuffer m b) (data : List UInt8) :
    ∃ m', m.prepend data = some m' ∧ HoldsBuffer m' (b.prepend data) := by
  obtain ⟨m₁, tail, hgrow, htail, hholds⟩ := h.grow data.length
  have hlength : (b.contents ++ tail).length = b.contents.length + data.length := by rw [List.length_append, htail]
  have hle : b.contents.length ≤ (b.contents ++ tail).length := by omega
  have hcontents := contents_grown hle
  have hsize : m₁.getSize - data.length = b.contents.length := by
    rw [hholds.getSize, hcontents, hlength, Nat.add_sub_cancel]
  have hread : m₁.read 0 b.contents.length = some b.contents := by
    rw [hholds.read (by rw [hcontents]; omega), hcontents, List.drop_zero, List.take_left' rfl]
  obtain ⟨m₂, hmove, hholds₂⟩ := hholds.write_grown data.length b.contents hle (by omega)
  have hlength₂ := Block.length_splice (show data.length + b.contents.length ≤ (b.contents ++ tail).length by omega)
  obtain ⟨m', hcopy, hholds'⟩ := hholds₂.write_grown 0 data (by omega) (by omega)
  refine ⟨m', ?_, ?_⟩
  · simp only [StringMemory.prepend, hgrow, Option.bind_eq_bind, Option.bind_some, hsize, hread, hmove, hcopy]
  · have htext : splice (splice (b.contents ++ tail) data.length b.contents) 0 data = data ++ b.contents := by
      rw [splice, List.take_zero, List.nil_append, Nat.zero_add, splice, List.append_assoc,
        List.drop_left' (List.length_take_of_le (by omega)),
        List.drop_of_length_le (by omega), List.append_nil]
    rw [htext] at hholds'
    exact hholds'

theorem prependUnless (h : HoldsBuffer m b) (data : List UInt8) :
    ∃ m', m.prependUnless data = some m' ∧ HoldsBuffer m' (b.prependUnless data) := by
  rw [StringMemory.prependUnless, StringBuffer.prependUnless, h.getSize]
  by_cases hlonger : data.length > b.contents.length
  · rw [if_pos hlonger, if_neg fun hprefix => absurd hprefix.length_le (by omega)]
    exact h.prepend data
  · rw [if_neg hlonger, h.read (by omega), List.drop_zero, Option.bind_some]
    by_cases hprefix : data <+: b.contents
    · rw [if_pos hprefix, if_neg (not_not_intro (List.prefix_iff_eq_take.mp hprefix).symm)]
      exact ⟨m, rfl, h⟩
    · rw [if_neg hprefix, if_pos fun htext => hprefix (List.prefix_iff_eq_take.mpr htext.symm)]
      exact h.prepend data

theorem appendUnless (h : HoldsBuffer m b) (data : List UInt8) :
    ∃ m', m.appendUnless data = some m' ∧ HoldsBuffer m' (b.appendUnless data) := by
  rw [StringMemory.appendUnless, StringBuffer.appendUnless, h.getSize]
  by_cases hlonger : b.contents.length < data.length
  · rw [if_pos hlonger, if_neg fun hsuffix => absurd hsuffix.length_le (by omega)]
    exact h.add data
  · have hlast : (b.contents.drop (b.contents.length - data.length)).take data.length =
      b.contents.drop (b.contents.length - data.length) :=
      List.take_of_length_le (by rw [List.length_drop]; omega)
    rw [if_neg hlonger, h.read (by omega), hlast, Option.bind_some]
    by_cases hsuffix : data <:+ b.contents
    · rw [if_pos hsuffix, if_neg (not_not_intro (List.suffix_iff_eq_drop.mp hsuffix).symm)]
      exact ⟨m, rfl, h⟩
    · rw [if_neg hsuffix, if_pos fun htext => hsuffix (List.suffix_iff_eq_drop.mpr htext.symm)]
      exact h.add data

/-! ### The loops -/

theorem convert (f : UInt8 → UInt8) :
    ∀ (k i : Nat) {m : StringMemory} {b : StringBuffer}, HoldsBuffer m b → i + k = b.contents.length →
    ∃ m', StringMemory.convert f (List.range' i k) m = some m' ∧
      HoldsBuffer m' (b.overwritten (b.contents.take i ++ (b.contents.drop i).map f)) := by
  intro k
  induction k with
  | zero =>
      intro i m b h hi
      refine ⟨m, rfl, ?_⟩
      rw [List.drop_of_length_le (by omega), List.take_of_length_le (by omega), List.map_nil, List.append_nil,
        overwritten_contents]
      exact h
  | succ k ih =>
      intro i m b h hi
      obtain ⟨ch, hch⟩ : ∃ ch, b.contents.drop i = ch :: b.contents.drop (i + 1) :=
        ⟨_, List.drop_eq_getElem_cons (by omega)⟩
      have hread : m.read i 1 = some [ch] := by rw [h.read (by omega), hch, List.take_succ_cons, List.take_zero]
      obtain ⟨m₁, hwrite, h₁⟩ := h.write i [f ch] (by rw [List.length_singleton]; omega)
      have hlength : (splice b.contents i [f ch]).length = b.contents.length :=
        Block.length_splice (by rw [List.length_singleton]; omega)
      have hcontents := contents_overwritten_eq hlength
      obtain ⟨m', hconvert, h'⟩ := ih (i + 1) h₁ (by rw [hcontents]; omega)
      refine ⟨m', ?_, ?_⟩
      · simp only [List.range'_succ, StringMemory.convert, hread, Option.bind_eq_bind, Option.bind_some,
          List.map_singleton, hwrite, hconvert]
      · have htake : (splice b.contents i [f ch]).take (i + 1) = b.contents.take i ++ [f ch] :=
          Block.take_splice_end (by omega) [f ch]
        have hdrop : (splice b.contents i [f ch]).drop (i + 1) = b.contents.drop (i + 1) :=
          Block.drop_splice (by omega) le_rfl
        rw [overwritten_overwritten hlength, hcontents, htake, hdrop, List.append_assoc, List.singleton_append,
          ← List.map_cons, ← hch] at h'
        exact h'

theorem convert_all (h : HoldsBuffer m b) (f : UInt8 → UInt8) :
    ∃ m', StringMemory.convert f (List.range m.getSize) m = some m' ∧ HoldsBuffer m'
    (b.overwritten (b.contents.map f)) := by
  obtain ⟨m', hconvert, h'⟩ := convert f b.contents.length 0 h (Nat.zero_add _)
  refine ⟨m', ?_, h'⟩
  rw [h.getSize, List.range_eq_range']
  exact hconvert

theorem findLast (h : HoldsBuffer m b) (p : UInt8 → Bool) (hn : n ≤ b.contents.length) :
    m.findLast p n = some ((beforeLast p (b.contents.take n)).map List.length) := by
  induction n with
  | zero => rfl
  | succ n ih =>
      have hch : b.contents.drop n = b.contents[n] :: b.contents.drop (n + 1) := List.drop_eq_getElem_cons (by omega)
      have hread : m.read n 1 = some [b.contents[n]] := by
        rw [h.read (by omega), hch, List.take_succ_cons, List.take_zero]
      rw [StringMemory.findLast, hread, List.take_succ_eq_append_getElem (by omega), beforeLast_concat,
        Option.bind_some, List.any_cons,
        List.any_nil, Bool.or_false, ih (by omega)]
      cases p b.contents[n] with
      | true => simp only [if_true, Option.map_some, List.length_take_of_le (show n ≤ b.contents.length by omega)]
      | false => simp only [Bool.false_eq_true, if_false]

/-- A text that an `int` can count is searched from its end. -/
theorem intSize_of_lt (hn : n < 2 ^ 31) : StringMemory.intSize n = n := Int.bmod_eq_of_le (by omega) (by omega)

theorem findLast_all (h : HoldsBuffer m b) (p : UInt8 → Bool) (hint : b.contents.length < 2 ^ 31) :
    m.findLast p (StringMemory.intSize m.getSize).toNat = some ((beforeLast p b.contents).map List.length) := by
  rw [h.getSize, intSize_of_lt hint, Int.toNat_natCast, h.findLast p le_rfl, List.take_length]

/-- What stands in front of the last byte of a kind is what remains. -/
theorem shrink_found (h : HoldsBuffer m b) (p : UInt8 → Bool) :
    HoldsBuffer (((beforeLast p b.contents).map List.length).elim m m.shrink)
    ((beforeLast p b.contents).elim b b.overwritten) := by
  cases hfound : beforeLast p b.contents with
  | none => exact h
  | some front =>
      obtain ⟨htake, hlength⟩ := beforeLast_eq_take hfound
      have hshrink := h.shrink hlength.le
      rw [htake] at hshrink
      exact hshrink

theorem dropSuffix (h : HoldsBuffer m b) (hint : b.contents.length < 2 ^ 31) :
    ∃ m', m.dropSuffix = some m' ∧ HoldsBuffer m' b.dropSuffix := by
  have hshrink := h.shrink_found (· = 46)
  rw [StringMemory.dropSuffix, h.findLast_all _ hint, StringBuffer.dropSuffix]
  cases hfound : beforeLast (· = 46) b.contents with
  | none => exact ⟨m, rfl, h⟩
  | some front =>
      rw [hfound] at hshrink
      exact ⟨_, rfl, hshrink⟩

theorem getFilenameDir (h : HoldsBuffer m b) (hint : b.contents.length < 2 ^ 31) :
    ∃ m', m.getFilenameDir = some m' ∧ HoldsBuffer m' b.getFilenameDir := by
  have hshrink := h.shrink_found isSlash
  rw [StringMemory.getFilenameDir, h.findLast_all _ hint, StringBuffer.getFilenameDir]
  cases hfound : beforeLast isSlash b.contents with
  | none => exact ⟨m, rfl, h⟩
  | some front =>
      rw [hfound] at hshrink
      exact ⟨_, rfl, hshrink⟩

theorem getFilename (h : HoldsBuffer m b) (hint : b.contents.length < 2 ^ 31) :
    ∃ m', m.getFilename = some m' ∧ HoldsBuffer m' b.getFilename := by
  rw [StringMemory.getFilename, h.findLast_all _ hint, StringBuffer.getFilename]
  cases hfound : beforeLast isSlash b.contents with
  | none => exact ⟨m, rfl, h⟩
  | some front =>
      obtain ⟨-, hlength⟩ := beforeLast_eq_take hfound
      set name := b.contents.drop (front.length + 1) with hname
      have hnameLength : name.length = b.contents.length - front.length - 1 := by
        rw [hname, List.length_drop]
        omega
      have htarget : StringMemory.intSize (m.getSize - front.length - 1) = name.length := by
        rw [h.getSize, ← hnameLength]
        exact intSize_of_lt (by omega)
      have hread : m.read (front.length + 1) name.length = some name := by
        rw [h.read (by omega), ← hname, List.take_length]
      obtain ⟨m₁, hwrite, h₁⟩ := h.write 0 name (by omega)
      have hsplice : (splice b.contents 0 name).length = b.contents.length := Block.length_splice (by omega)
      have hcontents := contents_overwritten_eq hsplice
      have htake : (splice b.contents 0 name).take name.length = name := by
        have hend := Block.take_splice_end (Nat.zero_le b.contents.length) name
        rw [Nat.zero_add, List.take_zero, List.nil_append] at hend
        exact hend
      have h' := h₁.shrink (n := name.length) (by rw [hcontents]; omega)
      rw [hcontents, htake, overwritten_overwritten hsplice] at h'
      refine ⟨m₁.shrink name.length, ?_, h'⟩
      rw [Option.map_some, Option.bind_some, Option.elim_some, htarget, if_neg (Int.natCast_nonneg _).not_gt,
        Int.toNat_natCast]
      simp only [hread, Option.bind_eq_bind, Option.bind_some, hwrite, Option.pure_def]

/-! ### Quoting -/

theorem dropBackslash (h : HoldsBuffer m b) : ∃ m', m.dropBackslash = some m' ∧ HoldsBuffer m' b.dropBackslash := by
  rw [StringMemory.dropBackslash, StringBuffer.dropBackslash, h.getSize]
  by_cases hempty : b.contents = []
  · rw [hempty]
    exact ⟨m, rfl, h⟩
  · have hpos := List.length_pos_of_ne_nil hempty
    have hlast : b.contents.drop (b.contents.length - 1) = [b.contents.getLast hempty] :=
      List.drop_length_sub_one hempty
    rw [if_pos hpos, h.read (by omega), hlast, List.getLast?_eq_some_getLast hempty]
    by_cases hbackslash : b.contents.getLast hempty = 92
    · have hshrink := h.shrink (n := b.contents.length - 1) (by omega)
      rw [← List.dropLast_eq_take] at hshrink
      simp only [hbackslash, if_true]
      exact ⟨_, rfl, hshrink⟩
    · refine ⟨m, ?_, by rw [if_neg (by simpa using hbackslash)]; exact h⟩
      simp [hbackslash]

/-- The loop reads behind where it writes: every backslash that is still to come has its room. -/
theorem doubleBackslashes : ∀ (rest : List UInt8) (r w : Nat) {m : StringMemory} {b : StringBuffer}, HoldsBuffer m b →
    b.contents.drop r = rest → r + rest.length = b.contents.length →
    w + (rest.length + rest.count 92) = b.contents.length →
    ∃ m', StringMemory.doubleBackslashes rest.length r w m = some m' ∧
      HoldsBuffer m' (b.overwritten (b.contents.take w ++ rest.flatMap doubled)) := by
  intro rest
  induction rest with
  | nil =>
      intro r w m b h _ _ hw
      refine ⟨m, rfl, ?_⟩
      rw [List.take_of_length_le (by simpa using hw.ge), List.flatMap_nil, List.append_nil, overwritten_contents]
      exact h
  | cons ch rest ih =>
      intro r w m b h hrest hr hw
      rw [List.length_cons] at hr hw
      rw [List.count_cons] at hw
      have hdoubled := length_flatMap_doubled [ch]
      rw [List.flatMap_singleton, List.length_singleton, List.count_singleton] at hdoubled
      have hfits : w + (doubled ch).length ≤ r + 1 := by rw [hdoubled]; omega
      have hread : m.read r 1 = some [ch] := by rw [h.read (by omega), hrest, List.take_succ_cons, List.take_zero]
      have hnext : b.contents.drop (r + 1) = rest := by
        rw [← List.drop_drop, hrest, List.drop_succ_cons, List.drop_zero]
      -- the rest of the loop, once the byte is written
      have hcontinue : ∀ {m₁ : StringMemory}, HoldsBuffer m₁ (b.overwritten (splice b.contents w (doubled ch))) →
          ∃ m', StringMemory.doubleBackslashes rest.length (r + 1) (w + (doubled ch).length) m₁ = some m' ∧
            HoldsBuffer m' (b.overwritten (b.contents.take w ++ (ch :: rest).flatMap doubled)) := by
        intro m₁ h₁
        have hsplice : (splice b.contents w (doubled ch)).length = b.contents.length := Block.length_splice (by omega)
        have hcontents := contents_overwritten_eq hsplice
        obtain ⟨m', hloop, h'⟩ := ih (r + 1) (w + (doubled ch).length) h₁
          (by rw [hcontents, Block.drop_splice (by omega) hfits, hnext])
          (by rw [hcontents, hsplice]; omega) (by rw [hcontents, hsplice, hdoubled]; omega)
        rw [hcontents, overwritten_overwritten hsplice, Block.take_splice_end (by omega), List.append_assoc,
          ← List.flatMap_cons] at h'
        exact ⟨m', hloop, h'⟩
      obtain ⟨m₁, hwrite, h₁⟩ := h.write w [ch] (by rw [List.length_singleton]; omega)
      by_cases hch : ch = 92
      · have hsplice : (splice b.contents w [ch]).length = b.contents.length :=
          Block.length_splice (by rw [List.length_singleton]; omega)
        have hcontents := contents_overwritten_eq hsplice
        rw [doubled, if_pos hch] at hfits hcontinue
        obtain ⟨m₂, hwrite₂, h₂⟩ := h₁.write (w + 1) [92] (by
          rw [hcontents, hsplice]
          simp only [List.length_cons, List.length_nil] at hfits ⊢
          omega)
        have hboth : splice (splice b.contents w [ch]) (w + 1) [92] = splice b.contents w [92, 92] := by
          rw [hch]
          exact Block.splice_splice (by omega) [92] [92]
        rw [hcontents, overwritten_overwritten hsplice, hboth] at h₂
        obtain ⟨m', hloop, h'⟩ := hcontinue h₂
        refine ⟨m', ?_, h'⟩
        rw [List.length_cons, StringMemory.doubleBackslashes]
        simp only [hread, Option.bind_eq_bind, Option.bind_some, hwrite]
        rw [if_pos (by rw [hch]), hwrite₂]
        exact hloop
      · rw [doubled, if_neg hch] at hcontinue
        obtain ⟨m', hloop, h'⟩ := hcontinue h₁
        refine ⟨m', ?_, h'⟩
        rw [List.length_cons, StringMemory.doubleBackslashes]
        simp only [hread, Option.bind_eq_bind, Option.bind_some, hwrite]
        rw [if_neg (by simpa using hch)]
        exact hloop

theorem prepQuoteCommon (h : HoldsBuffer m b) :
    ∃ m', m.prepQuoteCommon = some m' ∧ HoldsBuffer m' b.prepQuoteCommon := by
  obtain ⟨m₁, hdrop, h₁⟩ := h.dropBackslash
  set text := b.dropBackslash.contents with htext
  have hread₁ : m₁.read 0 m₁.getSize = some text := by
    rw [h₁.read (by rw [h₁.getSize]; omega), h₁.getSize, List.drop_zero, List.take_length]
  rw [StringMemory.prepQuoteCommon, StringBuffer.prepQuoteCommon, hdrop]
  simp only [Option.bind_eq_bind, Option.bind_some, hread₁]
  by_cases hcount : 0 < text.count 92
  · obtain ⟨m₂, tail, hgrow, htail, h₂⟩ := h₁.grow (text.count 92)
    rw [← htext] at hgrow h₂
    have hlonger : text.length ≤ (text ++ tail).length := by rw [List.length_append]; omega
    have hlength : (text ++ tail).length = text.count 92 + text.length := by
      rw [List.length_append, htail, Nat.add_comm]
    have hcontents₂ := contents_grown hlonger
    have hread₂ : m₂.read 0 m₁.getSize = some text := by
      rw [h₁.getSize, ← htext, h₂.read (by rw [hcontents₂]; omega), hcontents₂, List.drop_zero, List.take_left' rfl]
    obtain ⟨m₃, hmove, h₃⟩ := h₂.write_grown (text.count 92) text hlonger hlength.ge
    have hsplice : splice (text ++ tail) (text.count 92) text = (text ++ tail).take (text.count 92) ++ text := by
      rw [splice, List.drop_of_length_le hlength.le, List.append_nil]
    rw [hsplice] at h₃
    have hstart : ((text ++ tail).take (text.count 92)).length = text.count 92 := List.length_take_of_le (by omega)
    have hlength₃ : ((text ++ tail).take (text.count 92) ++ text).length = text.count 92 + text.length := by
      rw [List.length_append, hstart]
    have hlonger₃ : text.length ≤ ((text ++ tail).take (text.count 92) ++ text).length := by omega
    have hcontents₃ := contents_grown hlonger₃
    obtain ⟨m', hloop, h'⟩ := doubleBackslashes text (text.count 92) 0 h₃
      (by rw [hcontents₃]; exact List.drop_left' hstart)
      (by rw [hcontents₃, hlength₃]) (by rw [hcontents₃, hlength₃]; omega)
    rw [List.take_zero, List.nil_append,
      grown_overwritten hlonger₃ (by rw [length_flatMap_doubled, hlength₃, Nat.add_comm])] at h'
    refine ⟨m', ?_, ?_⟩
    · rw [if_pos hcount, hgrow]
      simp only [Option.bind_some, hread₂, hmove]
      rw [h₁.getSize]
      exact hloop
    · rw [if_pos hcount]
      exact h'
  · rw [if_neg hcount, if_neg hcount]
    exact ⟨m₁, rfl, h₁⟩

theorem isQuoted (h : HoldsBuffer m b) :
    m.isQuoted = some (decide (b.contents.head? = some 34 ∧ b.contents.getLast? = some 34)) := by
  rw [StringMemory.isQuoted, h.getSize]
  by_cases hempty : b.contents = []
  · rw [hempty]
    rfl
  · have hpos := List.length_pos_of_ne_nil hempty
    have hlast : b.contents.drop (b.contents.length - 1) = [b.contents.getLast hempty] :=
      List.drop_length_sub_one hempty
    have hfirst : b.contents.take 1 = [b.contents.head hempty] := by
      rw [List.take_one, List.head?_eq_some_head hempty]
      rfl
    rw [if_pos hpos, h.read (by omega), h.read (by omega), hlast, List.drop_zero, hfirst,
      List.getLast?_eq_some_getLast hempty,
      List.head?_eq_some_head hempty]
    simp

theorem quote (h : HoldsBuffer m b) : ∃ m', m.quote = some m' ∧ HoldsBuffer m' b.quote := by
  rw [StringMemory.quote, StringBuffer.quote, h.isQuoted, h.getSize]
  simp only [Option.bind_eq_bind, Option.bind_some, decide_eq_true_eq]
  by_cases hquoted : b.contents.head? = some 34 ∧ b.contents.getLast? = some 34
  · rw [if_pos hquoted, if_pos hquoted]
    by_cases hlong : b.contents.length > 1
    · have hbefore : b.contents.drop (b.contents.length - 2) = b.contents[b.contents.length - 2] ::
        b.contents.drop (b.contents.length - 2 + 1) :=
        List.drop_eq_getElem_cons (by omega)
      have hread : m.read (b.contents.length - 2) 1 = some [b.contents[b.contents.length - 2]] := by
        rw [h.read (by omega), hbefore, List.take_succ_cons, List.take_zero]
      rw [if_pos hlong, hread, Option.bind_some, List.getElem?_eq_getElem (by omega)]
      by_cases hbackslash : b.contents[b.contents.length - 2] = 92
      · -- the backslash in front of the last quotation mark goes
        have hshort : (b.contents.take (b.contents.length - 1)).length = b.contents.length - 1 :=
          List.length_take_of_le (by omega)
        have hne : b.contents.take (b.contents.length - 1) ≠ [] := List.ne_nil_of_length_pos (by omega)
        have hshrink := h.shrink (n := b.contents.length - 1) (by omega)
        have hcontents : (b.overwritten (b.contents.take (b.contents.length - 1))).contents =
          b.contents.take (b.contents.length - 1) := by
          rw [contents_overwritten (by omega), if_neg fun hboth => hne hboth.2]
        obtain ⟨m', hwrite, h'⟩ := hshrink.write (b.contents.length - 2) [34]
          (by rw [hcontents, List.length_singleton]; omega)
        have hsplice : splice (b.contents.take (b.contents.length - 1)) (b.contents.length - 2) [34] =
            b.contents.take (b.contents.length - 2) ++ [34] := by
          rw [splice, List.take_take, Nat.min_eq_left (by omega),
            List.drop_of_length_le (by rw [List.length_singleton]; omega), List.append_nil]
        have hlength : (b.contents.take (b.contents.length - 2) ++ [34]).length =
          (b.contents.take (b.contents.length - 1)).length := by
          rw [List.length_append, List.length_take, List.length_singleton]
          omega
        rw [hcontents, hsplice, overwritten_shortened (by omega) hne hlength] at h'
        refine ⟨m', ?_, ?_⟩
        · rw [if_pos (by rw [hbackslash])]
          exact hwrite
        · rw [if_pos ⟨hlong, by rw [hbackslash]⟩]
          exact h'
      · refine ⟨m, ?_, ?_⟩
        · rw [if_neg (by simpa using hbackslash)]
          rfl
        · rw [if_neg fun hboth => hbackslash (Option.some.inj hboth.2)]
          exact h
    · rw [if_neg hlong, if_neg fun hboth => hlong hboth.1]
      exact ⟨m, rfl, h⟩
  · rw [if_neg hquoted, if_neg hquoted]
    obtain ⟨m₁, hprep, h₁⟩ := h.prepQuoteCommon
    obtain ⟨m₂, hprepend, h₂⟩ := h₁.prepend [34]
    obtain ⟨m', hadd, h'⟩ := h₂.add [34]
    refine ⟨m', ?_, h'⟩
    simp only [hprep, Option.bind_some, hprepend, hadd]

theorem escapeForCmdlineDefine (h : HoldsBuffer m b) :
    ∃ m', m.escapeForCmdlineDefine = some m' ∧ HoldsBuffer m' b.escapeForCmdlineDefine := by
  obtain ⟨m₁, hprep, h₁⟩ := h.prepQuoteCommon
  obtain ⟨m₂, hprepend, h₂⟩ := h₁.prepend [92, 34]
  obtain ⟨m', hadd, h'⟩ := h₂.add [92, 34]
  refine ⟨m', ?_, h'⟩
  simp only [StringMemory.escapeForCmdlineDefine, Option.bind_eq_bind, hprep, Option.bind_some, hprepend, hadd]

end HoldsBuffer

end Tundra
