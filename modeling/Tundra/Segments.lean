import Tundra.BinaryData
import Tundra.HashTable
import Mathlib.Order.Basic

/-!
# Writing into several segments

The segments of a `BinaryWriter` while a file is put together. Writing only adds to the segments, so what an
earlier state of the writer says about the file holds for every later one: each part of a file is read back on
its own, from the state of the writer right after it was written.
-/

namespace Tundra

open Bytes

namespace BinarySegment

/-- A segment that came out of another one by writing more into it. -/
structure Extends (seg seg' : BinarySegment) : Prop where
  bytes : ∃ more, seg'.bytes = seg.bytes ++ more
  fixups : ∃ more, seg'.fixups = seg.fixups ++ more ∧ ∀ f ∈ more, seg.bytes.length ≤ f.pointerOffset

instance : Preorder BinarySegment where
  le := Extends
  le_refl seg := ⟨⟨[], by simp⟩, [], by simp⟩
  le_trans seg seg' seg'' h h' := by
    obtain ⟨⟨more, hbytes⟩, fixups, hfixups, hbehind⟩ := h
    obtain ⟨⟨more', hbytes'⟩, fixups', hfixups', hbehind'⟩ := h'
    refine ⟨⟨more ++ more', by rw [hbytes', hbytes, List.append_assoc]⟩, fixups ++ fixups', ?_, fun f hf => ?_⟩
    · rw [hfixups', hfixups, List.append_assoc]
    · rcases List.mem_append.mp hf with hf | hf
      · exact hbehind f hf
      · have hle := hbehind' f hf
        rw [hbytes, List.length_append] at hle
        omega

theorem le_write (seg : BinarySegment) (data : List UInt8) : seg ≤ seg.write data := ⟨⟨data, rfl⟩, [], by simp [write]⟩

theorem le_writePointer (seg : BinarySegment) (locator : BinaryLocator) : seg ≤ seg.writePointer locator :=
  ⟨⟨_, rfl⟩, _, rfl, fun f hf => by rw [List.mem_singleton.mp hf]⟩

variable {seg seg' : BinarySegment} {image : List UInt8} {globalOffset : Nat → Nat} {b : Nat}

theorem length_le (h : seg ≤ seg') : seg.bytes.length ≤ seg'.bytes.length := by
  obtain ⟨⟨more, hbytes⟩, -⟩ := h
  rw [hbytes, List.length_append]
  omega

/-- What stands in a segment still stands in the image when more is written. -/
theorem shown_of_le (h : seg ≤ seg') (hshown : Shown image globalOffset b seg') : Shown image globalOffset b seg := by
  obtain ⟨⟨more, hbytes⟩, fixups, hfixups, hbehind⟩ := h
  refine ⟨fun off bs hat hapart => ?_, fun f hf => hshown.pointer f (hfixups ▸ List.mem_append_left _ hf)⟩
  by_cases hnil : bs = []
  · rw [hnil]
    exact .nil
  · refine hshown.data off bs (hbytes ▸ hat.append more) fun f hf => ?_
    rw [hfixups] at hf
    rcases List.mem_append.mp hf with hf | hf
    · exact hapart f hf
    · have hend := hat.length_le hnil
      have hle := hbehind f hf
      exact .inl (by omega)

end BinarySegment

/-- The segments of a `BinaryWriter`, by `m_Index`. -/
abbrev Segments := Nat → BinarySegment

namespace Segments

def empty : Segments := fun _ => .empty

def write (w : Segments) (k : Nat) (data : List UInt8) : Segments := Function.update w k ((w k).write data)

def writePointer (w : Segments) (k : Nat) (locator : BinaryLocator) :
    Segments := Function.update w k ((w k).writePointer locator)

def writeUint32 (w : Segments) (k : Nat) (v : UInt32) : Segments := w.write k (toLE 4 v.toNat)

def writeInt32 (w : Segments) (k : Nat) (v : Int32) : Segments := w.write k (int32Bytes v)

def writeUint64 (w : Segments) (k : Nat) (v : UInt64) : Segments := w.write k (toLE 8 v.toNat)

def writeStringData (w : Segments) (k : Nat) (s : CString) : Segments := w.write k (s.bytes ++ [0])

/-- `BinarySegmentWriteNullPointer`. -/
def writeNullPointer (w : Segments) (k : Nat) : Segments := w.writeUint32 k 0

def position (w : Segments) (k : Nat) : BinaryLocator := (w k).position k

/-- `BinarySegmentAlign`. -/
def align (w : Segments) (k alignment : Nat) : Segments := Function.update w k ((w k).align alignment)

/-- The number of bytes in a segment. -/
def size (w : Segments) (k : Nat) : Nat := (w k).bytes.length

/-- `BinaryWriterFlush` with this many segments. -/
def flush (w : Segments) (n : Nat) : Option (List UInt8) := BinaryWriter.flush ((List.range n).map w)

variable {w w' : Segments} {n k : Nat} {image : List UInt8} {base : Nat → Nat}

@[simp] theorem size_write (j : Nat) (data : List UInt8) :
    (w.write k data).size j = w.size j + if j = k then data.length else 0 := by
  unfold size write
  by_cases h : j = k
  · subst h
    simp
  · simp [h]

@[simp] theorem size_writePointer (j : Nat) (locator : BinaryLocator) :
    (w.writePointer k locator).size j = w.size j + if j = k then 4 else 0 := by
  unfold size writePointer
  by_cases h : j = k
  · subst h
    simp
  · simp [h]

@[simp] theorem position_segIndex : (w.position k).segIndex = k := rfl

@[simp] theorem position_offset : (w.position k).offset = w.size k := rfl

@[simp] theorem size_empty : empty.size k = 0 := rfl

theorem le_write (w : Segments) (k : Nat) (data : List UInt8) : w ≤ w.write k data := by
  intro j
  unfold write
  by_cases h : j = k
  · subst h
    rw [Function.update_self]
    exact BinarySegment.le_write _ _
  · rw [Function.update_of_ne h]

theorem le_writePointer (w : Segments) (k : Nat) (locator : BinaryLocator) : w ≤ w.writePointer k locator := by
  intro j
  unfold writePointer
  by_cases h : j = k
  · subst h
    rw [Function.update_self]
    exact BinarySegment.le_writePointer _ _
  · rw [Function.update_of_ne h]

theorem le_align (w : Segments) (k alignment : Nat) : w ≤ w.align k alignment := w.le_write k _

theorem size_le (h : w ≤ w') (k : Nat) : w.size k ≤ w'.size k := BinarySegment.length_le (h k)

end Segments

/-- The segments stand in the image, one after the other. -/
structure Placed (n : Nat) (w : Segments) (image : List UInt8) (base : Nat → Nat) : Prop where
  shown : ∀ k < n, Shown image base (base k) (w k)
  apart : ∀ i j, i < j → j < n → base i + w.size i ≤ base j
  zero : base 0 = 0

variable {w w' : Segments} {n k : Nat} {image : List UInt8} {base : Nat → Nat}

namespace Placed

theorem of_le (hp : Placed n w' image base) (h : w ≤ w') : Placed n w image base where
  shown k hk := BinarySegment.shown_of_le (h k) (hp.shown k hk)
  apart i j hij hj := by
    have := hp.apart i j hij hj
    have := Segments.size_le h i
    omega
  zero := hp.zero

theorem of_flush (h : w.flush n = some image) : Placed n w image (BinaryWriter.base ((List.range n).map w)) where
  shown k hk := BinaryWriter.flush_shown h (by simp [hk])
  apart i j hij hj := BinaryWriter.base_add_le (by simp [hij.trans hj]) hij
  zero := rfl

theorem written {data : List UInt8} (hp : Placed n (w.write k data) image base) (hk : k < n) :
    At image (base k + w.size k) data := by
  have hshown := hp.shown k hk
  rw [Segments.write, Function.update_self] at hshown
  exact hshown.written

theorem pointed {locator : BinaryLocator} (hp : Placed n (w.writePointer k locator) image base) (hk : k < n) :
    PointerAt image (base k + w.size k) (base locator.segIndex + locator.offset) := by
  have hshown := hp.shown k hk
  rw [Segments.writePointer, Function.update_self] at hshown
  exact hshown.pointed

theorem readPtr {locator : BinaryLocator} (hp : Placed n (w.writePointer k locator) image base)
    (hk : k < locator.segIndex) (hn : locator.segIndex < n) :
    readPtr image (base k + w.size k) = some (some (base locator.segIndex + locator.offset)) := by
  refine readPtr_of_pointerAt (hp.pointed (hk.trans hn)) ?_
  have hapart := hp.apart k _ hk hn
  simp only [Segments.size_writePointer, if_true] at hapart
  omega

end Placed

/-! ### Strings -/

/-- In every file of the writer this string stands at this place. -/
def Stored (n : Nat) (w : Segments) (locator : BinaryLocator) (s : CString) : Prop :=
  ∀ image base, Placed n w image base → At image (base locator.segIndex + locator.offset) (s.bytes ++ [0])

theorem Stored.of_le {locator : BinaryLocator} {s : CString} (hs : Stored n w locator s) (h : w ≤ w') :
    Stored n w' locator s :=
  fun _ _ hp => hs _ _ (hp.of_le h)

theorem stored_writeStringData (hk : k < n) (s : CString) : Stored n (w.writeStringData k s) (w.position k) s :=
  fun _ _ hp => hp.written hk

theorem readFrozenString_of_stored {locator : BinaryLocator} {s : CString}
    (hp : Placed n (w.writePointer k locator) image base)
    (hs : At image (base locator.segIndex + locator.offset) (s.bytes ++ [0])) (hk : k < locator.segIndex)
    (hn : locator.segIndex < n) :
    readFrozenString image (base k + w.size k) = some s := by
  refine readFrozenString_of_at (hp.pointed (hk.trans hn)) ?_ hs
  have hapart := hp.apart k _ hk hn
  simp only [Segments.size_writePointer, if_true] at hapart
  omega

/-- Every string of the table stands in the segment of the strings where the table says. -/
structure Pooled (n strSeg : Nat) (w : Segments) (table : HashTable BinaryLocator) : Prop where
  valid : table.Valid
  stored : ∀ r ∈ table.walk, r.payload.segIndex = strSeg ∧ Stored n w r.payload r.string

namespace Pooled

variable {strSeg : Nat} {table : HashTable BinaryLocator}

theorem init : Pooled n strSeg w .init := ⟨HashTable.valid_init, fun r hr => by cases hr⟩

theorem of_le (hpool : Pooled n strSeg w table) (h : w ≤ w') : Pooled n strSeg w' table :=
  ⟨hpool.valid, fun r hr => ⟨(hpool.stored r hr).1, (hpool.stored r hr).2.of_le h⟩⟩

theorem insert {hash : UInt32} {s : CString} {locator : BinaryLocator} (hpool : Pooled n strSeg w table)
    (hhash : hash ≠ 0) (hsegment : locator.segIndex = strSeg) (hs : Stored n w locator s) :
    Pooled n strSeg w (table.insert hash s locator) := by
  obtain ⟨hvalid, hperm, -⟩ := hpool.valid.insert_spec hhash s locator
  refine ⟨hvalid, fun r hr => ?_⟩
  rcases List.mem_cons.mp (hperm.mem_iff.mp hr) with rfl | hr
  · exact ⟨hsegment, hs⟩
  · exact hpool.stored r hr

theorem lookup {hash : UInt32} {s : CString} {locator : BinaryLocator} (hpool : Pooled n strSeg w table)
    (h : table.lookup hash s = some locator) : locator.segIndex = strSeg ∧ Stored n w locator s := by
  obtain ⟨r, hr, rfl, rfl⟩ := hpool.valid.mem_of_lookup h
  exact hpool.stored r hr

end Pooled

/-! ### Arrays -/

section Steps

variable {σ α β : Type} {R : σ → α → σ → Prop} {s s' : σ} {xs : List α}

/-- A loop over a list: one step after the other. -/
def Steps (R : σ → α → σ → Prop) : σ → List α → σ → Prop
  | s, [], s' => s = s'
  | s, x :: xs, s' => ∃ t, R s x t ∧ Steps R t xs s'

theorem steps_foldl (step : σ → α → σ) (xs : List α) (s : σ) :
    Steps (fun s x t => step s x = t) s xs (xs.foldl step s) := by
  induction xs generalizing s with
  | nil => rfl
  | cons x xs ih => exact ⟨_, rfl, ih _⟩

theorem Steps.inv {I : σ → Prop} (hstep : ∀ s x t, x ∈ xs → R s x t → I s → I t) (h : Steps R s xs s') (hs : I s) :
    I s' := by
  induction xs generalizing s with
  | nil => exact h ▸ hs
  | cons x xs ih =>
      obtain ⟨t, hR, hrest⟩ := h
      exact ih (fun s y t hy => hstep s y t (List.mem_cons_of_mem _ hy)) hrest (hstep s x t List.mem_cons_self hR hs)

/-- A loop that only adds to the segments and keeps an invariant. -/
structure Writes (segs : σ → Segments) (I : σ → Prop) (R : σ → α → σ → Prop) (xs : List α) : Prop where
  inv : ∀ s x t, x ∈ xs → R s x t → I s → I t
  le : ∀ s x t, x ∈ xs → R s x t → I s → segs s ≤ segs t

/-- Every step of a loop adds this many bytes to a segment. -/
def Adds (k size : Nat) (segs : σ → Segments) (I : σ → Prop) (R : σ → α → σ → Prop) (xs : List α) : Prop :=
  ∀ s x t, x ∈ xs → R s x t → I s → (segs t).size k = (segs s).size k + size

/-- What a step of a loop adds to a segment reads as this value. -/
def Puts (n k : Nat) (segs : σ → Segments) (I : σ → Prop) (R : σ → α → σ → Prop)
    (elem : List UInt8 → Nat → Option β) (val : α → β) (xs : List α) : Prop :=
  ∀ s x t, x ∈ xs → R s x t → I s → ∀ image base, Placed n (segs t) image base →
    elem image (base k + (segs s).size k) = some (val x)

namespace Writes

variable {segs : σ → Segments} {I : σ → Prop} {size : Nat} {x : α} {elem : List UInt8 → Nat → Option β} {val : α → β}

theorem of_cons (h : Writes segs I R (x :: xs)) : Writes segs I R xs where
  inv s y t hy := h.inv s y t (List.mem_cons_of_mem _ hy)
  le s y t hy := h.le s y t (List.mem_cons_of_mem _ hy)

theorem steps_le (h : Writes segs I R xs) (hsteps : Steps R s xs s') (hs : I s) : segs s ≤ segs s' := by
  induction xs generalizing s with
  | nil => exact hsteps ▸ le_refl _
  | cons x xs ih =>
      obtain ⟨t, hR, hrest⟩ := hsteps
      exact (h.le s x t List.mem_cons_self hR hs).trans (ih h.of_cons hrest (h.inv s x t List.mem_cons_self hR hs))

theorem steps_size (h : Writes segs I R xs) (hadds : Adds k size segs I R xs) (hsteps : Steps R s xs s') (hs : I s) :
    (segs s').size k = (segs s).size k + size * xs.length := by
  induction xs generalizing s with
  | nil =>
      cases hsteps
      simp
  | cons x xs ih =>
      obtain ⟨t, hR, hrest⟩ := hsteps
      have htail := ih h.of_cons (fun s y t hy => hadds s y t (List.mem_cons_of_mem _ hy)) hrest
        (h.inv s x t List.mem_cons_self hR hs)
      rw [htail, hadds s x t List.mem_cons_self hR hs, List.length_cons]
      ring

/-- The elements that a loop writes can be read one after the other. -/
theorem steps_elem (h : Writes segs I R xs) (hadds : Adds k size segs I R xs) (hputs : Puts n k segs I R elem val xs)
    (hsteps : Steps R s xs s') (hs : I s) (hp : Placed n (segs s') image base) :
    ∀ i (hi : i < (xs.map val).length), elem image (base k + (segs s).size k + size * i) = some (xs.map val)[i] := by
  induction xs generalizing s with
  | nil => exact fun i hi => by simp at hi
  | cons x xs ih =>
      obtain ⟨t, hR, hrest⟩ := hsteps
      have ht := h.inv s x t List.mem_cons_self hR hs
      have htail := ih h.of_cons (fun s y t hy => hadds s y t (List.mem_cons_of_mem _ hy))
        (fun s y t hy => hputs s y t (List.mem_cons_of_mem _ hy)) hrest ht
      intro i hi
      cases i with
      | zero => exact hputs s x t List.mem_cons_self hR hs image base (hp.of_le (h.of_cons.steps_le hrest ht))
      | succ i =>
          have hi' := htail i (by simpa using hi)
          rw [hadds s x t List.mem_cons_self hR hs] at hi'
          simp only [List.map_cons, List.getElem_cons_succ, ← hi']
          congr 1
          ring

theorem steps_readElems (h : Writes segs I R xs) (hadds : Adds k size segs I R xs)
    (hputs : Puts n k segs I R elem val xs) (hsteps : Steps R s xs s') (hs : I s)
    (hp : Placed n (segs s') image base) :
    readElems size elem image xs.length (some (base k + (segs s).size k)) = some (xs.map val) := by
  have hread := readElems_eq_some (h.steps_elem hadds hputs hsteps hs hp)
  rwa [List.length_map] at hread

end Writes

end Steps

end Tundra
