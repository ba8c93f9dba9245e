import Tundra.PathUtil.Memory

/-!
# Paths in memory hold paths

As long as nothing is written outside an array, the buffers in memory hold the names of a path: `m_SegEnds` has
the ends of the names that stand one after another in `m_Data`. `PathConcat` and `PathFormat` on such buffers
are those of `PathUtil`.
-/

namespace Tundra

open Checked (MemoryFault inBounds check ok_bind inBounds_some check_pos check_neg)

/-! ### Names one after another -/

/-- The ends of names that stand one after another. -/
def nameEnds : Nat → List CString → List Nat
  | _, [] => []
  | pos, name :: names => (pos + name.bytes.length) :: nameEnds (pos + name.bytes.length) names

def bufferText (names : List CString) : List UInt8 := names.flatMap CString.bytes

variable {names more : List CString} {pos i : Nat}

theorem bufferSize_cons (name : CString) (names : List CString) :
    bufferSize (name :: names) = name.bytes.length + bufferSize names := by
  rw [bufferSize, List.map_cons, List.sum_cons, bufferSize]

theorem bufferSize_append (names more : List CString) :
    bufferSize (names ++ more) = bufferSize names + bufferSize more := by
  rw [bufferSize, List.map_append, List.sum_append, bufferSize, bufferSize]

theorem length_bufferText (names : List CString) : (bufferText names).length = bufferSize names := by
  rw [bufferText, List.length_flatMap, bufferSize]

theorem length_nameEnds (pos : Nat) (names : List CString) : (nameEnds pos names).length = names.length := by
  induction names generalizing pos with
  | nil => rfl
  | cons name names ih => rw [nameEnds, List.length_cons, ih, List.length_cons]

theorem nameEnds_append (pos : Nat) (names more : List CString) :
    nameEnds pos (names ++ more) = nameEnds pos names ++ nameEnds (pos + bufferSize names) more := by
  induction names generalizing pos with
  | nil => rfl
  | cons name names ih =>
      rw [List.cons_append, nameEnds, ih, nameEnds, bufferSize_cons, ← Nat.add_assoc, List.cons_append]

theorem getElem?_nameEnds (hi : i < names.length) :
    (nameEnds pos names)[i]? = some (pos + bufferSize (names.take (i + 1))) := by
  induction names generalizing pos i with
  | nil => cases hi
  | cons name names ih =>
      cases i with
      | zero =>
          rw [nameEnds, List.getElem?_cons_zero, List.take_succ_cons, bufferSize_cons, List.take_zero]
          rfl
      | succ i =>
          rw [nameEnds, List.getElem?_cons_succ, ih (Nat.lt_of_succ_lt_succ hi), List.take_succ_cons, bufferSize_cons,
            Nat.add_assoc]

theorem nameEnds_take (pos n : Nat) (names : List CString) :
    (nameEnds pos names).take n = nameEnds pos (names.take n) := by
  induction names generalizing pos n with
  | nil => simp [nameEnds]
  | cons name names ih =>
      cases n with
      | zero => rfl
      | succ n => rw [nameEnds, List.take_succ_cons, ih, List.take_succ_cons, nameEnds]

theorem bufferSize_take_le (names : List CString) (n : Nat) : bufferSize (names.take n) ≤ bufferSize names := by
  conv_rhs => rw [← List.take_append_drop n names, bufferSize_append]
  exact Nat.le_add_right _ _

theorem bufferText_take (names : List CString) (n : Nat) :
    bufferText (names.take n) = (bufferText names).take (bufferSize (names.take n)) := by
  conv_rhs => rw [← List.take_append_drop n names, bufferText, List.flatMap_append, ← bufferText]
  rw [List.take_left' ?_]
  rw [List.take_append_drop, length_bufferText]

/-! ### What a buffer holds -/

structure HoldsNames (segEnds : Block Nat kMaxPathSegments) (data : Block UInt8 kMaxPathLength)
    (names : List CString) : Prop where
  count_le : names.length ≤ kMaxPathSegments
  size_le : bufferSize names ≤ kMaxPathLength
  segEnds : segEnds.cells.take names.length = nameEnds 0 names
  data : data.cells.take (bufferSize names) = bufferText names

/-- The path that a buffer in memory holds. -/
structure Represents (memory : PathMemory.Buffer) (buffer : PathBuffer) : Prop where
  type : memory.type = buffer.type
  absolute : memory.absolute = buffer.absolute
  windowsDevicePath : memory.windowsDevicePath = buffer.windowsDevicePath
  segCount : memory.segCount = buffer.segments.length
  leadingDotDots : memory.leadingDotDots = buffer.leadingDotDots
  names : HoldsNames memory.segEnds memory.data buffer.segments

variable {segEnds segEnds' : Block Nat kMaxPathSegments} {data data' : Block UInt8 kMaxPathLength}

theorem HoldsNames.nil (segEnds : Block Nat kMaxPathSegments) (data : Block UInt8 kMaxPathLength) :
    HoldsNames segEnds data [] :=
  ⟨Nat.zero_le _, Nat.zero_le _, rfl, rfl⟩

theorem HoldsNames.take (h : HoldsNames segEnds data names) (n : Nat) : HoldsNames segEnds data (names.take n) := by
  have hsize := bufferSize_take_le names n
  have hlength : (names.take n).length ≤ names.length := List.length_take_le' _ _
  refine ⟨hlength.trans h.count_le, hsize.trans h.size_le, ?_, ?_⟩
  · rw [← nameEnds_take, ← h.segEnds, List.take_take, List.length_take]
  · rw [bufferText_take, ← h.data, List.take_take, Nat.min_eq_left hsize]

theorem HoldsNames.append (h : HoldsNames segEnds data names)
    (hcount : names.length + more.length ≤ kMaxPathSegments)
    (hdata : data.write (bufferSize names) (bufferText more) = some data')
    (hends : segEnds'.cells.take (names.length + more.length) = segEnds.cells.take names.length ++
    nameEnds (bufferSize names) more) :
    HoldsNames segEnds' data' (names ++ more) := by
  have hsize := (Block.cells_write hdata).1
  have htext := Block.take_write hdata
  rw [length_bufferText] at hsize htext
  refine ⟨by rw [List.length_append]; exact hcount, by rw [bufferSize_append]; exact hsize, ?_, ?_⟩
  · rw [List.length_append, hends, h.segEnds, nameEnds_append, Nat.zero_add]
  · rw [bufferSize_append, htext, h.data, bufferText, bufferText, bufferText, List.flatMap_append]

theorem HoldsNames.getElem?_segEnds (h : HoldsNames segEnds data names) (hi : i < names.length) :
    segEnds.cells[i]? = some (bufferSize (names.take (i + 1))) := by
  rw [Block.getElem?_of_take h.segEnds hi, getElem?_nameEnds hi, Nat.zero_add]

theorem bufferSize_take_succ {name : CString} (h : names[i]? = some name) :
    bufferSize (names.take (i + 1)) = bufferSize (names.take i) + name.bytes.length := by
  rw [List.take_add_one, h, bufferSize_append, Option.toList_some, bufferSize_cons]
  rfl

theorem HoldsNames.read_data (h : HoldsNames segEnds data names) {name : CString} (hname : names[i]? = some name) :
    data.read (bufferSize (names.take i)) name.bytes.length = some name.bytes := by
  obtain ⟨hi, hget⟩ := List.getElem?_eq_some_iff.mp hname
  have hsucc := bufferSize_take_succ hname
  have hle := bufferSize_take_le names (i + 1)
  rw [Block.read_of_take h.size_le h.data (by omega)]
  have hsplit : bufferText names = bufferText (names.take i) ++ (name.bytes ++ bufferText (names.drop (i + 1))) := by
    conv_lhs => rw [← List.take_append_drop i names, List.drop_eq_getElem_cons hi]
    rw [bufferText, List.flatMap_append, List.flatMap_cons, ← bufferText, ← bufferText, hget]
  rw [hsplit, List.drop_left' (length_bufferText _), List.take_left' rfl]

/-! ### Concatenation -/

variable {memory otherMemory : PathMemory.Buffer} {buffer other : PathBuffer} {checks : Bool}

theorem Represents.minSegCount (h : Represents memory buffer) : memory.minSegCount = buffer.minSegCount := by
  rw [PathMemory.Buffer.minSegCount, PathBuffer.minSegCount, h.windowsDevicePath]

theorem throwAway_le_segCount (minSegCount n segCount leadingDotDots : Nat) :
    (throwAway minSegCount n (segCount, leadingDotDots)).1 ≤ segCount := by
  induction n generalizing segCount leadingDotDots with
  | zero => exact Nat.le_refl _
  | succ n ih =>
      rw [throwAway]
      split_ifs
      · exact (ih _ _).trans (Nat.sub_le _ _)
      · exact ih _ _
      · exact ih _ _

theorem memory_bufferSize (h : Represents memory buffer) {n : Nat} (hn : n ≤ buffer.segments.length) :
    PathMemory.bufferSize checks memory n = .ok (bufferSize (buffer.segments.take n)) := by
  have hcount := h.names.count_le
  rw [kMaxPathSegments] at hcount
  have hmod : n % 2 ^ 16 ≤ memory.segCount := by
    rw [h.segCount, Nat.mod_eq_of_lt (by omega)]
    exact hn
  rw [PathMemory.bufferSize, check_pos hmod, ok_bind]
  split_ifs with hpos
  · rw [h.names.getElem?_segEnds (by omega), Nat.sub_add_cancel hpos, inBounds_some]
  · obtain rfl : n = 0 := by omega
    rfl

theorem memory_copySegEnds (hother : HoldsNames segEnds data more) {keep n : Nat}
    (hkeep : bufferSize more + keep < 2 ^ 16) {k : Nat} (target : Block Nat kMaxPathSegments)
    (hcount : i + k ≤ more.length) (hfits : n + (i + k) ≤ kMaxPathSegments) :
    ∃ target', PathMemory.copySegEnds segEnds keep n (List.range' i k) target = .ok target' ∧
      target'.cells.take (n + (i + k)) = target.cells.take (n + i) ++ nameEnds (keep + bufferSize (more.take i))
      ((more.drop i).take k) := by
  induction k generalizing i target with
  | zero => exact ⟨target, rfl, by simp [nameEnds]⟩
  | succ k ih =>
      have hi : i < more.length := by omega
      have hname : more[i]? = some more[i] := List.getElem?_eq_getElem hi
      have hsize := bufferSize_take_le more (i + 1)
      have hsucc := bufferSize_take_succ hname
      have hfit : n + i + [(bufferSize (more.take (i + 1)) + keep) % 2 ^ 16].length ≤ kMaxPathSegments := by
        rw [List.length_singleton]
        omega
      obtain ⟨written, hwrite⟩ := Block.write_isSome target hfit
      have htake := Block.take_write hwrite
      obtain ⟨target', hcopy, hends⟩ := ih (i := i + 1) written (by omega) (by omega)
      refine ⟨target', ?_, ?_⟩
      · rw [List.range'_succ, PathMemory.copySegEnds, hother.getElem?_segEnds hi, inBounds_some, ok_bind, hwrite,
          inBounds_some, ok_bind]
        exact hcopy
      · rw [List.length_singleton, Nat.mod_eq_of_lt (by omega), Nat.add_assoc n i 1] at htake
        have hdrop : (more.drop i).take (k + 1) = more[i] :: (more.drop (i + 1)).take k := by
          rw [List.drop_eq_getElem_cons hi, List.take_succ_cons]
        rw [show n + (i + (k + 1)) = n + (i + 1 + k) by omega, hends, htake, hdrop, nameEnds, List.append_assoc,
          List.singleton_append]
        congr 2
        · omega
        · congr 1
          omega

theorem memory_copySegEnds_overrun (hother : HoldsNames segEnds data more) {keep n k : Nat}
    {target : Block Nat kMaxPathSegments} (hcount : i + k ≤ more.length) (hn : n + i ≤ kMaxPathSegments)
    (hoverrun : kMaxPathSegments < n + (i + k)) :
    PathMemory.copySegEnds segEnds keep n (List.range' i k) target = .error .overrun := by
  induction k generalizing i target with
  | zero => omega
  | succ k ih =>
      rw [List.range'_succ, PathMemory.copySegEnds, hother.getElem?_segEnds (by omega), inBounds_some, ok_bind]
      by_cases hfit : n + i + [(bufferSize (more.take (i + 1)) + keep) % 2 ^ 16].length ≤ kMaxPathSegments
      · obtain ⟨written, hwrite⟩ := Block.write_isSome target hfit
        rw [List.length_singleton] at hfit
        rw [hwrite, inBounds_some, ok_bind]
        exact ih (by omega) (by omega) (by omega)
      · rw [Block.write_eq_none (by omega)]
        rfl

/-- `PathConcat` of what buffers in memory hold. Where the names do not fit, the arrays are only safe in checked
builds. -/
theorem memory_pathConcatImpl (h : Represents memory buffer) (hother : Represents otherMemory other)
    (hrelative : other.absolute = false) (hdots : buffer.leadingDotDots + other.leadingDotDots < 2 ^ 16) :
    (∀ result, pathConcatImpl buffer other = some result →
      ∃ memory', PathMemory.pathConcatImpl checks memory otherMemory = .ok memory' ∧ Represents memory' result) ∧
    (pathConcatImpl buffer other = none →
      PathMemory.pathConcatImpl checks memory otherMemory = .error (if checks then .check else .overrun)) := by
  have hle := throwAway_le_segCount buffer.minSegCount other.leadingDotDots buffer.segments.length buffer.leadingDotDots
  have hdots' := throwAway_le buffer.minSegCount other.leadingDotDots buffer.segments.length buffer.leadingDotDots
  have hrelative' : otherMemory.absolute = false := hother.absolute.trans hrelative
  rw [pathConcatImpl, PathMemory.pathConcatImpl, h.segCount, h.minSegCount, h.leadingDotDots, hother.leadingDotDots,
    hother.segCount,
    check_pos hrelative', ok_bind]
  generalize throwAway buffer.minSegCount other.leadingDotDots (buffer.segments.length, buffer.leadingDotDots) =
    thrown at hle hdots' ⊢
  obtain ⟨n, dots⟩ := thrown
  simp only at hle hdots' ⊢
  have hcount := hother.names.count_le
  have hsize := hother.names.size_le
  have hkeep := (h.names.take n).size_le
  have hcountN : n ≤ kMaxPathSegments := hle.trans h.names.count_le
  have htakeLength : (buffer.segments.take n).length = n := List.length_take_of_le hle
  have hread : otherMemory.data.read 0 (bufferSize other.segments) = some (bufferText other.segments) := by
    rw [Block.read_of_take hother.names.size_le hother.names.data (Nat.zero_add _).le, List.drop_zero,
      List.take_of_length_le (length_bufferText _).le]
  rw [memory_bufferSize h hle, ok_bind, memory_bufferSize hother (Nat.le_refl _), ok_bind, List.take_length,
    List.length_append, htakeLength,
    bufferSize_append, hread, inBounds_some]
  simp only [kMaxPathSegments, kMaxPathLength] at hcount hsize hkeep hcountN
  by_cases hsizes : bufferSize (buffer.segments.take n) + bufferSize other.segments ≤ kMaxPathLength
  · obtain ⟨data, hdata⟩ := Block.write_isSome memory.data
      ((congrArg _ (length_bufferText other.segments)).trans_le hsizes)
    rw [check_pos hsizes, ok_bind, ok_bind, hdata, inBounds_some, ok_bind, List.range_eq_range']
    by_cases hcounts : n + other.segments.length ≤ kMaxPathSegments
    · rw [check_pos hcounts, ok_bind, if_pos (by simp [hcounts, hsizes])]
      refine ⟨fun result hresult => ?_, fun hnone => by cases hnone⟩
      cases hresult
      have hkeepMore : bufferSize other.segments + bufferSize (buffer.segments.take n) < 2 ^ 16 := by omega
      obtain ⟨segEnds, hcopy, hends⟩ :=
        memory_copySegEnds hother.names (n := n) hkeepMore memory.segEnds (Nat.zero_add _).le
        (by rw [Nat.zero_add]; exact hcounts)
      rw [hcopy, ok_bind]
      refine ⟨_, rfl, h.type, h.absolute, h.windowsDevicePath, ?_, ?_, (h.names.take n).append ?_ hdata ?_⟩
      · rw [kMaxPathSegments] at hcounts
        simp only [List.length_append, htakeLength]
        exact Nat.mod_eq_of_lt (by omega)
      · simp only [h.absolute]
        split_ifs
        · rfl
        · exact Nat.mod_eq_of_lt (by omega)
      · rw [htakeLength]
        exact hcounts
      · rw [Nat.zero_add, Nat.add_zero, List.take_zero, List.drop_zero, List.take_length] at hends
        rw [htakeLength, hends]
        rfl
    · rw [check_neg hcounts, if_neg (by simp [hcounts])]
      refine ⟨fun result hresult => (by cases hresult), fun _ => ?_⟩
      cases checks with
      | true => rfl
      | false =>
          simp only [Bool.false_eq_true, if_false]
          rw [ok_bind, memory_copySegEnds_overrun hother.names (Nat.zero_add _).le hcountN
            (by rw [Nat.zero_add]; omega)]
          rfl
  · have hdata : memory.data.write (bufferSize (buffer.segments.take n)) (bufferText other.segments) = none := by
      rw [Block.write_eq_none (by rw [length_bufferText]; omega)]
    rw [if_neg (by simp [hsizes]), check_neg hsizes]
    refine ⟨fun result hresult => (by cases hresult), fun _ => ?_⟩
    cases checks with
    | true =>
        by_cases hcounts : n + other.segments.length ≤ kMaxPathSegments
        · rw [check_pos hcounts]
          rfl
        · rw [check_neg hcounts]
          rfl
    | false =>
        simp only [Bool.false_eq_true, if_false]
        rw [ok_bind, ok_bind, hdata]
        rfl

theorem memory_pathConcat (checks : Bool) (h : Represents memory buffer) (hother : Represents otherMemory other)
    (hdots : buffer.leadingDotDots + other.leadingDotDots < 2 ^ 16) :
    (∀ result, pathConcat buffer other = some result →
      ∃ memory', PathMemory.pathConcat checks memory otherMemory = .ok memory' ∧ Represents memory' result) ∧
    (pathConcat buffer other = none →
    PathMemory.pathConcat checks memory otherMemory = .error (if checks then .check else .overrun)) := by
  rw [pathConcat, PathMemory.pathConcat, hother.absolute]
  by_cases habsolute : other.absolute = true
  · rw [if_pos habsolute, if_pos habsolute]
    refine ⟨fun result hresult => ?_, fun hnone => (by cases hnone)⟩
    cases hresult
    exact ⟨otherMemory, rfl, hother⟩
  · rw [if_neg habsolute, if_neg habsolute]
    rw [Bool.not_eq_true] at habsolute
    exact memory_pathConcatImpl h hother habsolute hdots

/-! ### Formatting -/

theorem memory_segLength (h : Represents memory buffer) {name : CString} (hname : buffer.segments[i]? = some name) :
    memory.segLength checks i = .ok name.bytes.length := by
  obtain ⟨hi, -⟩ := List.getElem?_eq_some_iff.mp hname
  have hcount := h.names.count_le
  have hsize := h.names.size_le
  have hle := bufferSize_take_le buffer.segments (i + 1)
  have hsucc := bufferSize_take_succ hname
  rw [kMaxPathSegments] at hcount
  rw [kMaxPathLength] at hsize
  have hmod : i % 2 ^ 16 < memory.segCount := by
    rw [h.segCount, Nat.mod_eq_of_lt (by omega)]
    exact hi
  rw [PathMemory.Buffer.segLength, check_pos hmod, ok_bind, h.names.getElem?_segEnds hi, inBounds_some, ok_bind]
  split_ifs with hpos
  · have hbefore := h.names.getElem?_segEnds (i := i - 1) (by omega)
    rw [Nat.sub_add_cancel hpos] at hbefore
    have hlength : (bufferSize (buffer.segments.take (i + 1)) + 2 ^ 16 - bufferSize (buffer.segments.take i)) %
      2 ^ 16 = name.bytes.length := by
      omega
    rw [hbefore, inBounds_some, ok_bind, hlength]
    rfl
  · obtain rfl : i = 0 := by omega
    rw [hsucc, List.take_zero]
    exact congrArg Except.ok (Nat.zero_add _)

structure CursorHolds (cursor : PathMemory.Cursor) (text : List UInt8) : Prop where
  pos : cursor.pos = text.length
  cells : cursor.output.cells.take text.length = text

variable {cursor : PathMemory.Cursor} {text : List UInt8}

theorem CursorHolds.put (h : CursorHolds cursor text) (bytes : List UInt8)
    (hfits : text.length + bytes.length ≤ kMaxPathLength) :
    ∃ cursor', cursor.put bytes = .ok cursor' ∧ CursorHolds cursor' (text ++ bytes) := by
  obtain ⟨output, hwrite⟩ := Block.write_isSome cursor.output hfits
  have htake := Block.take_write hwrite
  rw [h.cells] at htake
  refine ⟨⟨output, cursor.pos + bytes.length⟩, ?_, ?_, ?_⟩
  · rw [PathMemory.Cursor.put, h.pos, hwrite]
    rfl
  · rw [List.length_append, ← h.pos]
  · rw [List.length_append]
    exact htake

theorem memory_formatDotDots (sep : CString) {n : Nat} (h : CursorHolds cursor text)
    (hfits : text.length + n * (dotDot ++ sep).bytes.length ≤ kMaxPathLength) :
    ∃ cursor', PathMemory.formatDotDots sep n cursor = .ok cursor' ∧
      CursorHolds cursor' (text ++ (List.replicate n (dotDot ++ sep).bytes).flatten) := by
  induction n generalizing cursor text with
  | zero => exact ⟨cursor, rfl, by simpa using h⟩
  | succ n ih =>
      rw [Nat.succ_mul] at hfits
      obtain ⟨first, hput, hfirst⟩ := h.put (dotDot ++ sep).bytes (by omega)
      obtain ⟨cursor', hrest, hwritten⟩ := ih hfirst (by rw [List.length_append]; omega)
      refine ⟨cursor', ?_, ?_⟩
      · rw [PathMemory.formatDotDots, hput, ok_bind, hrest]
      · rw [List.replicate_succ, List.flatten_cons, ← List.append_assoc]
        exact hwritten

theorem memory_formatSegments (checks : Bool) (h : Represents memory buffer) {sep output : CString}
    (hsep : sep.bytes.length = 1) {k : Nat} (hcount : i + k = buffer.segments.length)
    (hwritten : CursorHolds cursor output.bytes) :
    (∀ result, formatSegments sep output (0 < i) (buffer.segments.drop i) = some result →
      ∃ cursor', PathMemory.formatSegments checks memory sep (List.range' i k)
      (bufferSize (buffer.segments.take i)) cursor = .ok cursor' ∧
        CursorHolds cursor' result.bytes) ∧
    (formatSegments sep output (0 < i) (buffer.segments.drop i) = none →
      PathMemory.formatSegments checks memory sep (List.range' i k) (bufferSize (buffer.segments.take i)) cursor = .error .croak) := by
  induction k generalizing i cursor output with
  | zero =>
      rw [List.drop_of_length_le (by omega)]
      refine ⟨fun result hresult => ?_, fun hnone => by cases hnone⟩
      cases hresult
      exact ⟨cursor, rfl, hwritten⟩
  | succ k ih =>
      have hi : i < buffer.segments.length := by omega
      have hname : buffer.segments[i]? = some buffer.segments[i] := List.getElem?_eq_getElem hi
      have hsize := h.names.size_le
      have hle := bufferSize_take_le buffer.segments (i + 1)
      have hsucc := bufferSize_take_succ hname
      rw [List.drop_eq_getElem_cons hi, formatSegments, List.range'_succ, PathMemory.formatSegments,
        memory_segLength h hname, ok_bind,
        hwritten.pos]
      by_cases hlong : output.bytes.length + buffer.segments[i].bytes.length + 1 ≥ kMaxPathLength
      · rw [if_pos hlong, if_pos hlong]
        exact ⟨fun result hresult => (by cases hresult), fun _ => rfl⟩
      · rw [if_neg hlong, if_neg hlong]
        have hroom : (if 0 < i then sep.bytes else []).length ≤ 1 := by
          split_ifs
          · exact hsep.le
          · exact Nat.zero_le _
        obtain ⟨first, hput, hfirst⟩ := hwritten.put (if 0 < i then sep.bytes else []) (by omega)
        obtain ⟨second, hput', hsecond⟩ := hfirst.put buffer.segments[i].bytes (by rw [List.length_append]; omega)
        have hoff : (bufferSize (buffer.segments.take i) + buffer.segments[i].bytes.length) % 2 ^ 16 =
            bufferSize (buffer.segments.take (i + 1)) := by
          rw [← hsucc]
          rw [kMaxPathLength] at hsize
          exact Nat.mod_eq_of_lt (by omega)
        have hbytes : (output ++ (if decide (0 < i) = true then sep else CString.empty) ++ buffer.segments[i]).bytes =
            output.bytes ++ (if 0 < i then sep.bytes else []) ++ buffer.segments[i].bytes := by
          simp only [CString.bytes_append, decide_eq_true_eq]
          split_ifs <;> rfl
        rw [← hbytes] at hsecond
        rw [hput, ok_bind, h.names.read_data hname, inBounds_some, ok_bind, hput', ok_bind, hoff]
        have hrest := ih (i := i + 1) (by omega) hsecond
        rw [decide_eq_true (Nat.succ_pos i)] at hrest
        exact hrest

theorem memory_pathFormat (checks : Bool) (h : Represents memory buffer)
    (hdots : buffer.leadingDotDots ≤ 2 * kMaxPathSegments) (output : Block UInt8 kMaxPathLength) :
    (∀ path, pathFormat buffer = some path →
      ∃ cursor, PathMemory.pathFormat checks output memory = .ok cursor ∧ CursorHolds cursor (path.bytes ++ [0])) ∧
    (pathFormat buffer = none → PathMemory.pathFormat checks output memory = .error .croak) := by
  set sep := buffer.type.separator with hsepEq
  have hsep : sep.bytes.length = 1 := by cases htype : buffer.type <;> rw [hsepEq, htype] <;> rfl
  have hstart : CursorHolds (PathMemory.Cursor.mk output 0) [] := ⟨rfl, rfl⟩
  set root : CString := if buffer.absolute && !buffer.windowsDevicePath then sep else .empty with hroot
  have hrootBytes : (if buffer.absolute && !buffer.windowsDevicePath then sep.bytes else []) = root.bytes := by
    rw [hroot]
    split_ifs <;> rfl
  have hrootLength : root.bytes.length ≤ 1 := by
    rw [hroot]
    split_ifs
    · exact hsep.le
    · exact Nat.zero_le _
  have hdotsLength : (dotDot ++ sep).bytes.length = 3 := by
    rw [CString.bytes_append, List.length_append, hsep]
    rfl
  simp only [kMaxPathSegments] at hdots
  obtain ⟨first, hput, hfirst⟩ := hstart.put root.bytes (by rw [kMaxPathLength, List.length_nil]; omega)
  obtain ⟨second, hdotDots, hsecond⟩ := memory_formatDotDots sep (n := buffer.leadingDotDots) hfirst
    (by rw [List.nil_append, hdotsLength, kMaxPathLength]; omega)
  have hbytes : ((List.replicate buffer.leadingDotDots (dotDot ++ sep)).foldl (· ++ ·) root).bytes =
      [] ++ root.bytes ++ (List.replicate buffer.leadingDotDots (dotDot ++ sep).bytes).flatten :=
        bytes_dotDots sep root _
  rw [← hbytes] at hsecond
  obtain ⟨hsome, hnone⟩ := memory_formatSegments checks h hsep (Nat.zero_add _) hsecond
  have hformat : PathMemory.pathFormat checks output memory =
      (PathMemory.formatSegments checks memory sep (List.range' 0 buffer.segments.length) 0 second).bind
        fun cursor => cursor.put [0] := by
    rw [PathMemory.pathFormat, h.type, h.absolute, h.windowsDevicePath, h.leadingDotDots, h.segCount, ← hsepEq,
      hrootBytes, hput, ok_bind,
      hdotDots, ok_bind, List.range_eq_range']
    rfl
  rw [hformat]
  refine ⟨fun path hpath => ?_, fun hlong => ?_⟩
  · obtain ⟨cursor, hsegments, hwritten⟩ := hsome path hpath
    have hlength := pathFormat_length (by rw [kMaxPathSegments]; exact hdots) hpath
    obtain ⟨cursor', hlast, hwritten'⟩ := hwritten.put [0] (by rw [List.length_singleton]; exact hlength)
    refine ⟨cursor', ?_, hwritten'⟩
    rw [List.take_zero] at hsegments
    rw [show PathMemory.formatSegments checks memory sep (List.range' 0 buffer.segments.length) 0 second =
      .ok cursor from hsegments]
    exact hlast
  · have hcroak := hnone hlong
    rw [List.take_zero] at hcroak
    rw [show PathMemory.formatSegments checks memory sep (List.range' 0 buffer.segments.length) 0 second =
      .error .croak from hcroak]
    rfl

end Tundra
