import Tundra.Segments
import Tundra.Lib.Transition

/-!
# Relocation

What the callers of a `BinaryWriter` do with its segments, in any order: they write and align, ask for
positions, and write pointers to positions they asked for. The addresses of the segments are known only when the
file is written, and a pointer keeps its distance to its target only. `flush_relocated` says what the pointers
of the file are then: each one leads to its target, unless the target has the address of the pointer itself, for
the distance zero is the null pointer.
-/

namespace Tundra

open Bytes Transition

/-! ### Addresses -/

theorem ldiff_fifteen (m : Nat) : Nat.ldiff m 15 = m / 16 * 16 := by
  refine Nat.eq_of_testBit_eq fun i => ?_
  rw [show (15 : Nat) = 2 ^ 4 - 1 from rfl, show (16 : Nat) = 2 ^ 4 from rfl, ← Nat.shiftRight_eq_div_pow,
    ← Nat.shiftLeft_eq,
    Nat.testBit_ldiff, Nat.testBit_two_pow_sub_one, Nat.testBit_shiftLeft, Nat.testBit_shiftRight]
  by_cases h : i < 4
  · simp [h]
  · simp [h, Nat.add_sub_cancel' (Nat.le_of_not_lt h), Nat.le_of_not_lt h]

theorem BinarySegment.length_align_sixteen (seg : BinarySegment) :
    (seg.align 16).bytes.length = (seg.bytes.length + 15) / 16 * 16 := by
  rw [align, length_write, List.length_replicate]
  simp only [show 16 - 1 = 15 from rfl, ldiff_fifteen]
  have := Nat.div_add_mod (seg.bytes.length + 15) 16
  have := Nat.mod_lt (seg.bytes.length + 15) (show 0 < 16 by decide)
  omega

namespace Segments

/-- The number of bytes a segment takes in the file. -/
def alignedSize (w : Segments) (k : Nat) : Nat := ((w k).align 16).bytes.length

/-- The address of a position in the file with this many segments. -/
def address (w : Segments) (n : Nat) (locator : BinaryLocator) : Nat :=
  BinaryWriter.base ((List.range n).map w) locator.segIndex + locator.offset

/-- The distance `BinarySegmentFixupPointers` puts into a pointer. -/
def distance (w : Segments) (n : Nat) (place target : BinaryLocator) :
    Int := (w.address n target : Int) - w.address n place

variable {w : Segments} {n k : Nat}

theorem alignedSize_eq : w.alignedSize k = (w.size k + 15) / 16 * 16 := (w k).length_align_sixteen

theorem size_le_alignedSize : w.size k ≤ w.alignedSize k := by
  rw [alignedSize_eq]
  omega

theorem alignedSize_eq_zero_iff : w.alignedSize k = 0 ↔ w.size k = 0 := by
  rw [alignedSize_eq]
  omega

theorem address_eq_add (locator : BinaryLocator) :
    w.address n locator = w.address n ⟨locator.segIndex, 0⟩ + locator.offset := rfl

theorem address_succ (hk : k < n) : w.address n ⟨k + 1, 0⟩ = w.address n ⟨k, 0⟩ + w.alignedSize k := by
  simp only [address, BinaryWriter.base, BinaryWriter.globalOffset, alignedSize]
  rw [List.take_add_one, List.map_append, List.sum_append]
  simp [hk]

theorem address_mono {i j : Nat} (hij : i ≤ j) (hj : j ≤ n) : w.address n ⟨i, 0⟩ ≤ w.address n ⟨j, 0⟩ := by
  induction j, hij using Nat.le_induction with
  | base => rfl
  | succ j hij ih =>
      rw [address_succ hj]
      exact (ih (Nat.le_of_succ_le hj)).trans (Nat.le_add_right _ _)

theorem sixteen_dvd_address (hk : k ≤ n) : 16 ∣ w.address n ⟨k, 0⟩ := by
  induction k with
  | zero => exact Nat.dvd_zero _
  | succ k ih =>
      rw [address_succ hk, alignedSize_eq]
      exact Nat.dvd_add (ih (Nat.le_of_succ_le hk)) (Nat.dvd_mul_left _ _)

/-- Two segments begin at the same address if and only if all between them are empty. -/
theorem address_eq_iff_empty {i j : Nat} (hij : i ≤ j) (hj : j ≤ n) :
    w.address n ⟨i, 0⟩ = w.address n ⟨j, 0⟩ ↔ ∀ m < j, i ≤ m → w.size m = 0 := by
  induction j, hij using Nat.le_induction with
  | base => exact ⟨fun _ m hlt hm => absurd hm (Nat.not_le.mpr hlt), fun _ => rfl⟩
  | succ j hij ih =>
      have hmono := w.address_mono hij (Nat.le_of_succ_le hj)
      have hstep := ih (Nat.le_of_succ_le hj)
      rw [address_succ hj]
      constructor
      · intro heq m hlt hm
        rcases Nat.lt_succ_iff_lt_or_eq.mp hlt with hlt | rfl
        · exact hstep.mp (by omega) m hlt hm
        · exact alignedSize_eq_zero_iff.mp (by omega)
      · intro hempty
        rw [alignedSize_eq_zero_iff.mpr (hempty j (Nat.lt_succ_self j) hij), Nat.add_zero]
        exact hstep.mpr fun m hlt hm => hempty m (Nat.lt_succ_of_lt hlt) hm

/-- The end of an earlier segment, seen from the beginning of a later one with nothing between them. -/
def Touches (w : Segments) (target place : BinaryLocator) : Prop :=
  target.segIndex < place.segIndex ∧ target.offset = w.alignedSize target.segIndex ∧ place.offset = 0 ∧
    ∀ m < place.segIndex, target.segIndex < m → w.size m = 0

instance (w : Segments) (target place : BinaryLocator) : Decidable (w.Touches target place) :=
  inferInstanceAs (Decidable (_ ∧ _ ∧ _ ∧ _))

/-- Two positions with the same address, where the second one has something behind it. -/
theorem address_eq_iff {target place : BinaryLocator} (htarget : target.offset ≤ w.size target.segIndex)
    (hplace : place.offset < w.size place.segIndex) (htargetIndex : target.segIndex < n)
    (hplaceIndex : place.segIndex < n) :
    w.address n target = w.address n place ↔ target = place ∨ w.Touches target place := by
  have htargetSize := w.size_le_alignedSize (k := target.segIndex)
  have hplaceSize := w.size_le_alignedSize (k := place.segIndex)
  have htargetEnd := address_succ (w := w) htargetIndex
  have hplaceEnd := address_succ (w := w) hplaceIndex
  rw [address_eq_add target, address_eq_add place]
  rcases Nat.lt_trichotomy target.segIndex place.segIndex with hlt | heq | hgt
  · have hnext : target.segIndex + 1 ≤ place.segIndex := hlt
    have hmono := w.address_mono hnext hplaceIndex.le
    have hempty := address_eq_iff_empty (w := w) hnext hplaceIndex.le
    constructor
    · intro haddress
      refine .inr ⟨hlt, by omega, by omega, hempty.mp (by omega)⟩
    · rintro (rfl | ⟨-, hend, hzero, hbetween⟩)
      · rfl
      · have := hempty.mpr hbetween
        omega
  · constructor
    · intro haddress
      rw [heq] at haddress
      have hoffset : target.offset = place.offset := by omega
      exact .inl (by cases target; cases place; simp_all)
    · rintro (rfl | ⟨hlt, -⟩)
      · rfl
      · omega
  · have hnext : place.segIndex + 1 ≤ target.segIndex := hgt
    have hmono := w.address_mono hnext htargetIndex.le
    constructor
    · intro haddress
      omega
    · rintro (rfl | ⟨hlt, -⟩)
      · rfl
      · omega

end Segments

/-! ### Runs -/

/-- A call on one of the segments. All of `BinarySegmentWrite*` add bytes at the end. -/
inductive SegmentCall
  | write (k : Nat) (data : List UInt8)
  | align (k alignment : Nat)
  | position (k : Nat)
  | writePointer (k : Nat) (locator : BinaryLocator)
  | writeNullPointer (k : Nat)

/-- A pointer that was written, by its place in the segments. -/
inductive PointerEvent
  | pointer (place target : BinaryLocator)
  | null (place : BinaryLocator)
deriving DecidableEq

/-- A writer and the positions that were asked for so far. -/
structure SegmentRun where
  segs : Segments
  taken : List BinaryLocator

/-- One call on a writer with this many segments. -/
def segmentStep (n : Nat) (s : SegmentRun) : SegmentCall → Option (SegmentRun × List PointerEvent)
  | .write k data => if k < n then some ({ s with segs := s.segs.write k data }, []) else none
  -- the loop that pads to a multiple of zero does not end unless there is nothing to pad
  | .align k alignment =>
      if k < n ∧ (alignment = 0 → s.segs.size k = 0) then some ({ s with segs := s.segs.align k alignment }, [])
        else none
  | .position k => if k < n then some ({ s with taken := s.segs.position k :: s.taken }, []) else none
  | .writePointer k locator =>
      if k < n ∧ locator ∈ s.taken then
        some ({ s with segs := s.segs.writePointer k locator }, [.pointer (s.segs.position k) locator])
      else none
  | .writeNullPointer k =>
      if k < n then some ({ s with segs := s.segs.writeNullPointer k }, [.null (s.segs.position k)]) else none

def segmentSystem (n : Nat) : System SegmentRun SegmentCall PointerEvent := ⟨⟨.empty, []⟩, segmentStep n⟩

/-- What the segments keep of the calls. The pointers to fix up are the pointers that were written, and a null
pointer is left alone. -/
structure SegmentInv (n : Nat) (s : SegmentRun) (tr : List PointerEvent) : Prop where
  taken : ∀ l ∈ s.taken, l.segIndex < n ∧ l.offset ≤ s.segs.size l.segIndex
  fixup : ∀ k, ∀ f ∈ (s.segs k).fixups, .pointer ⟨k, f.pointerOffset⟩ f.target ∈ tr
  pointer : ∀ place target, .pointer place target ∈ tr → place.segIndex < n ∧
    ⟨place.offset, target⟩ ∈ (s.segs place.segIndex).fixups ∧
    target.segIndex < n ∧ target.offset ≤ s.segs.size target.segIndex
  null : ∀ place, .null place ∈ tr → ∀ image base, Placed n s.segs image base →
    At image (base place.segIndex + place.offset) (toLE 4 0)

namespace SegmentInv

variable {n k : Nat} {s : SegmentRun} {tr : List PointerEvent}

theorem init : SegmentInv n (segmentSystem n).init [] where
  taken l hl := by cases hl
  fixup k f hf := by cases hf
  pointer place target h := by cases h
  null place h := by cases h

theorem write (h : SegmentInv n s tr) (k : Nat) (data : List UInt8) :
    SegmentInv n { s with segs := s.segs.write k data } tr := by
  have hle := s.segs.le_write k data
  have hfixups : ∀ j, ((s.segs.write k data) j).fixups = (s.segs j).fixups := by
    intro j
    rw [Segments.write]
    by_cases hj : j = k
    · rw [hj, Function.update_self]
      rfl
    · rw [Function.update_of_ne hj]
  constructor
  · intro l hl
    exact ⟨(h.taken l hl).1, (h.taken l hl).2.trans (Segments.size_le hle _)⟩
  · intro j f hf
    rw [hfixups] at hf
    exact h.fixup j f hf
  · intro place target hp
    obtain ⟨hindex, hmem, htarget, hoffset⟩ := h.pointer place target hp
    refine ⟨hindex, ?_, htarget, hoffset.trans (Segments.size_le hle _)⟩
    rw [hfixups]
    exact hmem
  · intro place hp image base hplaced
    exact h.null place hp image base (hplaced.of_le hle)

theorem writePointer (h : SegmentInv n s tr) (hk : k < n) {locator : BinaryLocator} (hlocator : locator ∈ s.taken) :
    SegmentInv n { s with segs := s.segs.writePointer k locator } (tr ++ [.pointer (s.segs.position k) locator]) := by
  have hle := s.segs.le_writePointer k locator
  have hfixups : ∀ j, ((s.segs.writePointer k locator) j).fixups =
      (s.segs j).fixups ++ if j = k then [⟨s.segs.size k, locator⟩] else [] := by
    intro j
    rw [Segments.writePointer]
    by_cases hj : j = k
    · rw [hj, Function.update_self, if_pos rfl]
      rfl
    · rw [Function.update_of_ne hj, if_neg hj, List.append_nil]
  constructor
  · intro l hl
    exact ⟨(h.taken l hl).1, (h.taken l hl).2.trans (Segments.size_le hle _)⟩
  · intro j f hf
    rw [hfixups, List.mem_append] at hf
    rcases hf with hf | hf
    · exact List.mem_append_left _ (h.fixup j f hf)
    · by_cases hj : j = k
      · rw [if_pos hj, List.mem_singleton] at hf
        rw [hf, hj]
        exact List.mem_append_right _ List.mem_cons_self
      · rw [if_neg hj] at hf
        cases hf
  · intro place target hp
    rcases List.mem_append.mp hp with hp | hp
    · obtain ⟨hindex, hmem, htarget, hoffset⟩ := h.pointer place target hp
      refine ⟨hindex, ?_, htarget, hoffset.trans (Segments.size_le hle _)⟩
      rw [hfixups]
      exact List.mem_append_left _ hmem
    · simp only [List.mem_singleton, PointerEvent.pointer.injEq] at hp
      obtain ⟨rfl, rfl⟩ := hp
      refine ⟨hk, ?_, (h.taken _ hlocator).1, (h.taken _ hlocator).2.trans (Segments.size_le hle _)⟩
      rw [hfixups, Segments.position_segIndex, if_pos rfl]
      exact List.mem_append_right _ List.mem_cons_self
  · intro place hp image base hplaced
    rcases List.mem_append.mp hp with hp | hp
    · exact h.null place hp image base (hplaced.of_le hle)
    · simp at hp

theorem position (h : SegmentInv n s tr) (hk : k < n) :
    SegmentInv n { s with taken := s.segs.position k :: s.taken } tr where
  taken l hl := by
    rcases List.mem_cons.mp hl with rfl | hl
    · exact ⟨hk, le_rfl⟩
    · exact h.taken l hl
  fixup := h.fixup
  pointer := h.pointer
  null := h.null

theorem writeNullPointer (h : SegmentInv n s tr) (hk : k < n) :
    SegmentInv n { s with segs := s.segs.writeNullPointer k } (tr ++ [.null (s.segs.position k)]) := by
  have hwrite : SegmentInv n { s with segs := s.segs.writeNullPointer k } tr := h.write k _
  constructor
  · exact hwrite.taken
  · intro j f hf
    exact List.mem_append_left _ (hwrite.fixup j f hf)
  · intro place target hp
    rcases List.mem_append.mp hp with hp | hp
    · exact hwrite.pointer place target hp
    · simp at hp
  · intro place hp image base hplaced
    rcases List.mem_append.mp hp with hp | hp
    · exact hwrite.null place hp image base hplaced
    · simp only [List.mem_singleton, PointerEvent.null.injEq] at hp
      rw [hp]
      exact hplaced.written hk

theorem step (h : SegmentInv n s tr) {call : SegmentCall} {s' : SegmentRun} {es : List PointerEvent}
    (hstep : segmentStep n s call = some (s', es)) : SegmentInv n s' (tr ++ es) := by
  cases call <;>
    simp only [segmentStep, Option.ite_none_right_eq_some, Option.some.injEq, Prod.mk.injEq] at hstep <;>
    obtain ⟨hguard, rfl, rfl⟩ := hstep
  case write k data =>
    rw [List.append_nil]
    exact h.write k data
  case align k alignment =>
    rw [List.append_nil]
    exact h.write k _
  case position k =>
    rw [List.append_nil]
    exact h.position hguard
  case writePointer k locator => exact h.writePointer hguard.1 hguard.2
  case writeNullPointer k => exact h.writeNullPointer hguard

end SegmentInv

theorem segmentInv_of_reach {n : Nat} {s : SegmentRun} {tr : List PointerEvent}
    (h : Reach (segmentSystem n) anything s tr) :
    SegmentInv n s tr :=
  Reach.invariant .init (fun _ _ _ _ _ _ hinv _ hstep => hinv.step hstep) h

/-! ### The file -/

/-- A distance that an `int32_t` holds. -/
def FitsInt32 (d : Int) : Prop := -2 ^ 31 ≤ d ∧ d < 2 ^ 31

theorem toInt_ofInt_eq_iff (d : Int) : (Int32.ofInt d).toInt = d ↔ FitsInt32 d := by
  constructor
  · intro h
    rw [← h]
    exact ⟨Int32.le_toInt _, Int32.toInt_lt _⟩
  · intro h
    exact Int32.toInt_ofInt_of_le h.1 h.2

theorem BinarySegment.fixupPointers_fold_eq_none {globalOffset : Nat → Nat} {b : Nat} {fixups : List BinaryFixup}
    {bytes : List UInt8} :
    fixups.foldlM (fixupPointer globalOffset b) bytes = none ↔ ∃ f ∈ fixups, ¬FitsInt32 (delta globalOffset b f) := by
  induction fixups generalizing bytes with
  | nil => simp
  | cons f fixups ih =>
      rw [List.foldlM_cons, fixupPointer]
      by_cases hfits : FitsInt32 (delta globalOffset b f)
      · rw [if_neg (not_not.mpr ((toInt_ofInt_eq_iff _).mpr hfits)), Option.bind_eq_bind, Option.bind_some, ih]
        simp [hfits]
      · rw [if_pos (mt (toInt_ofInt_eq_iff _).mp hfits)]
        simp [hfits]

/-- Nothing is written if and only if some distance is too big. -/
theorem BinaryWriter.flush_eq_none_iff {segs : List BinarySegment} :
    flush segs = none ↔ ∃ k seg, segs[k]? = some seg ∧ ∃ f ∈ seg.fixups, ¬FitsInt32
    (BinarySegment.delta (base segs) (base segs k) f) := by
  rw [flush, Option.map_eq_none_iff, finalize, mapM_eq_none_iff]
  constructor
  · rintro ⟨⟨seg, k⟩, hmem, hnone⟩
    rw [List.mk_mem_zipIdx_iff_getElem?, List.getElem?_map, Option.map_eq_some_iff] at hmem
    obtain ⟨seg, hk, rfl⟩ := hmem
    exact ⟨k, seg, hk, BinarySegment.fixupPointers_fold_eq_none.mp hnone⟩
  · rintro ⟨k, seg, hk, hbig⟩
    refine ⟨(seg.align 16, k), ?_, BinarySegment.fixupPointers_fold_eq_none.mpr hbig⟩
    rw [List.mk_mem_zipIdx_iff_getElem?, List.getElem?_map, hk, Option.map_some]

/-- What the file is after these pointers were written. -/
structure Relocated (n : Nat) (w : Segments) (tr : List PointerEvent) (image : List UInt8) : Prop where
  length : image.length = ((List.range n).map w.alignedSize).sum
  aligned : ∀ k ≤ n, 16 ∣ w.address n ⟨k, 0⟩
  /-- The bytes of the aligned segments that are in no pointer stand in the file as they are. -/
  unchanged : ∀ k < n, ∀ i < w.alignedSize k,
    (∀ place target, .pointer place target ∈ tr → place.segIndex = k → i < place.offset ∨ place.offset + 4 ≤ i) →
      image[w.address n ⟨k, i⟩]? = ((w k).align 16).bytes[i]?
  pointer : ∀ place target, .pointer place target ∈ tr → readPtr image (w.address n place) =
    some (if target = place ∨ w.Touches target place then none else some (w.address n target))
  null : ∀ place, .null place ∈ tr → readPtr image (w.address n place) = some none

namespace SegmentInv

variable {n : Nat} {s : SegmentRun} {tr : List PointerEvent} {image : List UInt8}

theorem flush_eq_none_iff (h : SegmentInv n s tr) :
    s.segs.flush n = none ↔ ∃ place target, .pointer place target ∈ tr ∧ ¬FitsInt32
    (s.segs.distance n place target) := by
  rw [Segments.flush, BinaryWriter.flush_eq_none_iff]
  constructor
  · rintro ⟨k, seg, hk, f, hf, hbig⟩
    rw [List.getElem?_map, Option.map_eq_some_iff] at hk
    obtain ⟨j, hj, rfl⟩ := hk
    obtain ⟨hlt, rfl⟩ := List.getElem?_eq_some_iff.mp hj
    rw [List.getElem_range] at hf
    exact ⟨⟨k, f.pointerOffset⟩, f.target, h.fixup k f hf, hbig⟩
  · rintro ⟨place, target, hp, hbig⟩
    obtain ⟨hindex, hmem, -⟩ := h.pointer place target hp
    exact ⟨place.segIndex, s.segs place.segIndex, by simp [hindex], _, hmem, hbig⟩

theorem relocated (h : SegmentInv n s tr) (hflush : s.segs.flush n = some image) : Relocated n s.segs tr image := by
  have hplaced := Placed.of_flush hflush
  constructor
  · have hlength := BinaryWriter.length_flush hflush
    rw [hlength, BinaryWriter.base, BinaryWriter.globalOffset, List.length_map, List.map_map,
      List.take_of_length_le (by simp), List.map_map]
    rfl
  · intro k hk
    exact Segments.sixteen_dvd_address hk
  · intro k hk i hi hapart
    have hshown := @BinaryWriter.flush_shown_align _ _ hflush k (s.segs k) (by simp [hk])
    have hbyte := ((s.segs k).align 16).bytes.getElem?_eq_getElem hi
    have hat : At ((s.segs k).align 16).bytes i [((s.segs k).align 16).bytes[i]] := by
      rw [At, List.drop_eq_getElem_cons hi]
      exact List.prefix_append [_] _
    have himage := hshown.data i _ hat fun f hf => hapart ⟨k, f.pointerOffset⟩ f.target (h.fixup k f hf) rfl
    rw [hbyte, Segments.address]
    obtain ⟨rest, hrest⟩ := himage
    rw [← List.head?_drop, ← hrest]
    rfl
  · intro place target hp
    obtain ⟨hindex, hmem, htarget, hoffset⟩ := h.pointer place target hp
    have hinside : place.offset + 4 ≤ s.segs.size place.segIndex := (s.segs place.segIndex).fixups_inside _ hmem
    have haddress := Segments.address_eq_iff (n := n) hoffset (by omega) htarget hindex
    have hpointer : PointerAt image (s.segs.address n place) (s.segs.address n target) :=
      (hplaced.shown _ hindex).pointer _ hmem
    by_cases htouch : target = place ∨ s.segs.Touches target place
    · have heq := haddress.mpr htouch
      rw [if_pos htouch]
      obtain ⟨offset, hat, hsum⟩ := hpointer
      have hzero : offset = 0 := Int32.toInt_inj.mp (by rw [Int32.toInt_zero]; omega)
      rw [hzero] at hat
      exact readPtr_of_null hat
    · rw [if_neg htouch]
      exact readPtr_of_pointerAt hpointer fun heq => htouch (haddress.mp heq.symm)
  · intro place hp
    exact readPtr_of_null (h.null place hp _ _ hplaced)

end SegmentInv

variable {n : Nat} {s : SegmentRun} {tr : List PointerEvent}

/-- Whatever was called in whatever order: the file is refused exactly when some distance is too big, and is
relocated otherwise. -/
theorem flush_relocated (h : Reach (segmentSystem n) anything s tr) :
    (s.segs.flush n = none ↔ ∃ place target, .pointer place target ∈ tr ∧ ¬FitsInt32 (s.segs.distance n place target)) ∧
      ∀ image, s.segs.flush n = some image → Relocated n s.segs tr image :=
  ⟨(segmentInv_of_reach h).flush_eq_none_iff, fun _ => (segmentInv_of_reach h).relocated⟩

/-- A pointer to a later segment, one back into the middle of an earlier one, and a null pointer. -/
def backAndForth : List SegmentCall :=
  [.write 0 [1, 2, 3], .position 0, .align 0 4, .position 1, .writePointer 0 ⟨1, 0⟩, .writeNullPointer 1,
    .writePointer 1 ⟨0, 3⟩]

theorem flush_relocated_backAndForth :
    ∃ s tr image, Reach (segmentSystem 2) anything s tr ∧ s.segs.flush 2 = some image ∧
    Relocated 2 s.segs tr image ∧ readPtr image 4 = some (some 16) ∧ readPtr image 16 = some none ∧
    readPtr image 20 = some (some 3) := by
  have hrun : (exec (segmentSystem 2) backAndForth ((segmentSystem 2).init, [])).map (fun c => c.1.segs.flush 2) =
      some (some ([1, 2, 3, 0xfe, 12, 0, 0, 0] ++ List.replicate 8 0xfe ++
        ([0, 0, 0, 0] ++ int32Bytes (-17) ++ List.replicate 8 0xfe))) := by
    decide +kernel
  obtain ⟨s, tr, hreach, himage⟩ := exists_reach_of_exec (fun _ _ _ => trivial) hrun
  refine ⟨s, tr, _, hreach, himage, (flush_relocated hreach).2 _ himage, ?_⟩
  decide +kernel

/-- A pointer at the beginning of a segment to the end of the one before, which needs no padding, becomes the
null pointer. -/
theorem pointer_to_end_null :
    ∃ s tr image place target, Reach (segmentSystem 2) anything s tr ∧ s.segs.flush 2 = some image ∧
    .pointer place target ∈ tr ∧ target ≠ place ∧ readPtr image (s.segs.address 2 place) = some none := by
  have hrun : (exec (segmentSystem 2) [.write 0 (List.replicate 16 7), .position 0, .writePointer 1 ⟨0, 16⟩]
      ((segmentSystem 2).init, [])).map (fun c => (c.1.segs.flush 2, c.2, c.1.segs.address 2 ⟨1, 0⟩)) =
      some (some (List.replicate 16 7 ++ ([0, 0, 0, 0] ++ List.replicate 12 0xfe)), [.pointer ⟨1, 0⟩ ⟨0, 16⟩], 16) := by
    decide +kernel
  obtain ⟨s, tr, hreach, hview⟩ := exists_reach_of_exec (fun _ _ _ => trivial) hrun
  simp only [Prod.mk.injEq] at hview
  obtain ⟨himage, htr, haddress⟩ := hview
  refine ⟨s, tr, _, ⟨1, 0⟩, ⟨0, 16⟩, hreach, himage, ?_, by decide, ?_⟩
  · rw [htr]
    exact List.mem_cons_self
  · rw [haddress]
    decide +kernel

end Tundra
