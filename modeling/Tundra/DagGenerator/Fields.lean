import Tundra.DagGenerator.Load

/-!
# Fields of the DAG

The rules by which what `CompileDag` writes is read back. A write that puts a value at the end of a segment, and
whatever belongs to it into later segments, is a `Field`. Fields follow one another, and the elements behind a
pointer are fields of a later segment.
-/

namespace Tundra

open Bytes

namespace DagWriter

/-- The shared strings are where the table says. -/
def Good (w : DagWriter) : Prop := Pooled 6 strSeg w.segs w.sharedStrings

/-- A write that only adds to the segments. -/
def Adding (f : DagWriter → DagWriter) : Prop := ∀ w, w.Good → w.segs ≤ (f w).segs ∧ (f w).Good

/-- A write that adds this many bytes to a segment and nothing to the segments before it. -/
def Grows (k size : Nat) (f : DagWriter → DagWriter) :
    Prop := ∀ w, ∀ j ≤ k, (f w).segs.size j = w.segs.size j + if j = k then size else 0

/-- Two values one after the other, the first of this size. -/
def pairAt {α β : Type} (size : Nat) (first : List UInt8 → Nat → Option α) (second : List UInt8 → Nat → Option β)
    (image : List UInt8) (p : Nat) : Option (α × β) := do
  let a ← first image p
  let b ← second image (p + size)
  return (a, b)

/-- The elements behind the pointer at a place. -/
def elemsAt {α : Type} (size : Nat) (elem : List UInt8 → Nat → Option α) (count : Nat) (image : List UInt8)
    (p : Nat) : Option (List α) := do
  readElems size elem image count (← readPtr image p)

/-- A write that puts a value at the end of a segment. What is known about the file in the end may be used to
read it. -/
structure Field {α : Type} (S : List UInt8 → (Nat → Nat) → Prop) (k size : Nat) (f : DagWriter → DagWriter)
    (read : List UInt8 → Nat → Option α) (v : α) : Prop where
  adding : Adding f
  grows : Grows k size f
  reads : ∀ w, w.Good → ∀ image base, Placed 6 (f w).segs image base → S image base →
    read image (base k + w.segs.size k) = some v

variable {α β γ : Type} {S : List UInt8 → (Nat → Nat) → Prop} {k j size size' : Nat} {f g : DagWriter → DagWriter}
  {read : List UInt8 → Nat → Option α} {read' : List UInt8 → Nat → Option β} {v : α} {v' : β}

theorem pairAt_eq_some {image : List UInt8} {p : Nat} (h : pairAt size read read' image p = some (v, v')) :
    read image p = some v ∧ read' image (p + size) = some v' := by
  simpa [pairAt, Option.bind_eq_some_iff] using h

theorem Adding.comp (hf : Adding f) (hg : Adding g) : Adding fun w => g (f w) := by
  intro w hw
  obtain ⟨hle, hgood⟩ := hf w hw
  obtain ⟨hle', hgood'⟩ := hg (f w) hgood
  exact ⟨hle.trans hle', hgood'⟩

theorem Adding.id : Adding fun w => w := fun _ hw => ⟨le_refl _, hw⟩

theorem Adding.of_segs (h : ∀ w : DagWriter, w.segs ≤ (f w).segs ∧ (f w).sharedStrings = w.sharedStrings) :
    Adding f := by
  intro w hw
  obtain ⟨hle, hshared⟩ := h w
  refine ⟨hle, ?_⟩
  rw [Good, hshared]
  exact Pooled.of_le hw hle

theorem Adding.foldl {elem : γ → DagWriter → DagWriter} {values : List γ} (h : ∀ x ∈ values, Adding (elem x)) :
    Adding fun w => values.foldl (fun w x => elem x w) w := by
  induction values with
  | nil => exact .id
  | cons x xs ih => exact (h x List.mem_cons_self).comp (ih fun y hy => h y (List.mem_cons_of_mem _ hy))

namespace Grows

theorem comp (hf : Grows k size f) (hg : Grows k size' g) : Grows k (size + size') fun w => g (f w) := by
  intro w i hi
  rw [hg _ i hi, hf w i hi]
  split <;> omega

theorem keep (hf : Grows k size f) (hj : j < k) : Grows j 0 f := by
  intro w i hi
  rw [hf w i (by omega), if_neg (by omega), ite_self]

theorem self (hf : Grows k size f) (w : DagWriter) :
    (f w).segs.size k = w.segs.size k + size := by rw [hf w k le_rfl, if_pos rfl]

theorem below (hf : Grows k size f) (w : DagWriter) (hj : j < k) : (f w).segs.size j = w.segs.size j := by
  rw [hf w j hj.le, if_neg hj.ne, Nat.add_zero]

theorem foldl {elem : γ → DagWriter → DagWriter} {values : List γ} (h : ∀ x ∈ values, Grows k size (elem x)) :
    Grows k (size * values.length) fun w => values.foldl (fun w x => elem x w) w := by
  induction values with
  | nil =>
      intro w i hi
      simp
  | cons x xs ih =>
      rw [List.length_cons, Nat.mul_succ, Nat.add_comm]
      exact (h x List.mem_cons_self).comp (ih fun y hy => h y (List.mem_cons_of_mem _ hy))

end Grows

namespace Field

theorem seq (hf : Field S k size f read v) (hg : Field S k size' g read' v') :
    Field S k (size + size') (fun w => g (f w)) (pairAt size read read') (v, v') where
  adding := hf.adding.comp hg.adding
  grows := hf.grows.comp hg.grows
  reads w hw image base hp hS := by
    obtain ⟨-, hgood⟩ := hf.adding w hw
    have hfirst := hf.reads w hw image base (hp.of_le (hg.adding (f w) hgood).1) hS
    have hsecond := hg.reads (f w) hgood image base hp hS
    rw [hf.grows.self, ← Nat.add_assoc] at hsecond
    simp only [pairAt, hfirst, hsecond, Option.bind_eq_bind, Option.bind_some, Option.pure_def]

theorem after (hf : Field S k size f read v) (hg : Adding g) (hkeep : Grows k 0 g) :
    Field S k size (fun w => f (g w)) read v where
  adding := hg.comp hf.adding
  grows := by simpa using hkeep.comp hf.grows
  reads w hw image base hp hS := by
    have hread := hf.reads (g w) (hg w hw).2 image base hp hS
    rwa [hkeep.self, Nat.add_zero] at hread

theorem of_read {read' : List UInt8 → Nat → Option β} (hf : Field S k size f read v)
    (h : ∀ image p, read image p = some v → read' image p = some v') : Field S k size f read' v' where
  adding := hf.adding
  grows := hf.grows
  reads w hw image base hp hS := h image _ (hf.reads w hw image base hp hS)

/-- Fields one after the other can be read as the elements of an array. -/
theorem elem {elem : γ → DagWriter → DagWriter} {val : γ → α} {values : List γ}
    (h : ∀ x ∈ values, Field S k size (elem x) read (val x)) {w : DagWriter} (hw : w.Good) {image : List UInt8}
    {base : Nat → Nat} (hp : Placed 6 (values.foldl (fun w x => elem x w) w).segs image base) (hS : S image base) :
    ∀ i (hi : i < (values.map val).length), read image (base k + w.segs.size k + size * i) = some
    (values.map val)[i] := by
  induction values generalizing w with
  | nil => exact fun i hi => by simp at hi
  | cons x xs ih =>
      have hx := h x List.mem_cons_self
      have hxs : ∀ y ∈ xs, Field S k size (elem y) read (val y) := fun y hy => h y (List.mem_cons_of_mem _ hy)
      obtain ⟨-, hgood⟩ := hx.adding w hw
      intro i hi
      cases i with
      | zero => exact hx.reads w hw image base (hp.of_le (Adding.foldl (fun y hy => (hxs y hy).adding) _ hgood).1) hS
      | succ i =>
          have hi' := ih hxs hgood hp i (by simpa using hi)
          rw [hx.grows.self] at hi'
          simp only [List.map_cons, List.getElem_cons_succ, ← hi']
          congr 1
          ring

end Field

/-! ### Single values -/

theorem adding_write (k : Nat) (data : List UInt8) :
    Adding (write k data) := .of_segs fun w => ⟨w.segs.le_write k data, rfl⟩

theorem grows_write (k : Nat) (data : List UInt8) :
    Grows k data.length (write k data) := fun _ _ _ => Segments.size_write _ data

theorem adding_writePointer (k : Nat) (locator : BinaryLocator) : Adding (writePointer k locator) :=
  .of_segs fun w => ⟨w.segs.le_writePointer k locator, rfl⟩

theorem grows_writePointer (k : Nat) (locator : BinaryLocator) : Grows k 4 (writePointer k locator) :=
  fun _ _ _ => Segments.size_writePointer _ locator

theorem adding_writePointerTo (k j : Nat) : Adding (writePointerTo k j) :=
  .of_segs fun w => ⟨w.segs.le_writePointer k (w.segs.position j), rfl⟩

theorem grows_writePointerTo (k j : Nat) : Grows k 4 (writePointerTo k j) := fun _ _ _ => Segments.size_writePointer _ _

theorem adding_align (k alignment : Nat) :
    Adding (align k alignment) := .of_segs fun w => ⟨w.segs.le_align k alignment, rfl⟩

theorem keep_align {alignment : Nat} (h : k < j) : Grows k 0 (align j alignment) := by
  intro w i hi
  simp only [align, Segments.size, Segments.align, Function.update_of_ne (show i ≠ j by omega), ite_self, Nat.add_zero]

theorem field_write {data : List UInt8} (hk : k < 6) (h : ∀ image p, At image p data → read image p = some v) :
    Field S k data.length (write k data) read v where
  adding := adding_write k data
  grows := grows_write k data
  reads _ _ image _ hp _ := h image _ (hp.written hk)

theorem field_int32 (hk : k < 6) (v : Int32) : Field S k 4 (writeInt32 k v) readInt32 v := by
  have hfield := @field_write Int32 S k readInt32 v (int32Bytes v) hk fun _ _ h => readInt32_of_at h
  rwa [length_int32Bytes] at hfield

theorem field_uint32 (hk : k < 6) (v : UInt32) : Field S k 4 (writeUint32 k v) readUint32 v := by
  have hfield := @field_write UInt32 S k readUint32 v (toLE 4 v.toNat) hk fun _ _ h => readUint32_of_at h
  rwa [length_toLE] at hfield

theorem field_uint64 (hk : k < 6) (v : UInt64) : Field S k 8 (writeUint64 k v) readUint64 v := by
  have hfield := @field_write UInt64 S k readUint64 v (toLE 8 v.toNat) hk fun _ _ h => readUint64_of_at h
  rwa [length_toLE] at hfield

theorem field_digest (hk : k < 6) (v : HashDigest) : Field S k 16 (write k v.bytes) readDigest v := by
  have hfield := @field_write HashDigest S k readDigest v v.bytes hk fun _ _ h => readDigest_of_at h
  rwa [length_bytes] at hfield

theorem field_null (hk : k < 6) : Field S k 4 (writeNullPointer k) readPtr none := by
  have hfield := @field_write (Option Nat) S k readPtr none (toLE 4 0) hk fun _ _ h => readPtr_of_null h
  rwa [length_toLE] at hfield

/-! ### Strings -/

theorem field_stringPtr (hk : k < strSeg) (text : CString) :
    Field S k 4 (writeStringPtr k (some text)) readFrozenString text where
  adding := by
    refine .of_segs fun w => ⟨?_, rfl⟩
    exact (w.segs.le_writePointer k _).trans (Segments.le_write _ _ _)
  grows w i hi := by
    have hi' : i ≠ strSeg := by omega
    simp only [writeStringPtr, Segments.writeStringData, Segments.size_write, Segments.size_writePointer, if_neg hi',
      Nat.add_zero]
  reads w _ image base hp _ := by
    have hstring := stored_writeStringData (by decide) text image base hp
    rw [Segments.position, BinarySegment.position, Segments.writePointer, Function.update_of_ne hk.ne'] at hstring
    exact readFrozenString_of_stored (hp.of_le (Segments.le_write _ _ _)) hstring hk (show strSeg < 6 by decide)

theorem field_commonStringPtr (hk : k < strSeg) (ptr : CString) :
    Field S k 4 (writeCommonStringPtr k ptr) readFrozenString ptr where
  adding w hw := by
    simp only [writeCommonStringPtr]
    split
    case h_1 =>
      have hstring := stored_writeStringData (n := 6) (w := w.segs) (k := strSeg) (by decide) ptr
      have hle : w.segs ≤ w.segs.writeStringData strSeg ptr := Segments.le_write _ _ _
      have hpool := (hw.of_le hle).insert (djb2HashPath_ne_zero ptr) rfl hstring
      exact ⟨hle.trans (Segments.le_writePointer _ _ _), hpool.of_le (Segments.le_writePointer _ _ _)⟩
    case h_2 pointer _ => exact adding_writePointer k pointer w hw
  grows w i hi := by
    have hi' : i ≠ strSeg := by omega
    simp only [writeCommonStringPtr]
    split
    case h_1 =>
        simp only [Segments.writeStringData, Segments.size_write, Segments.size_writePointer, if_neg hi', Nat.add_zero]
    case h_2 pointer _ => exact grows_writePointer k pointer w i hi
  reads w hw image base hp _ := by
    simp only [writeCommonStringPtr] at hp
    split at hp
    case h_1 =>
      have hstring := stored_writeStringData (by decide) ptr image base (hp.of_le (Segments.le_writePointer _ _ _))
      have hread := readFrozenString_of_stored hp hstring hk (show strSeg < 6 by decide)
      rwa [Segments.writeStringData, Segments.size_write, if_neg hk.ne, Nat.add_zero] at hread
    case h_2 pointer hlookup =>
      obtain ⟨hsegment, hstring⟩ := hw.lookup hlookup
      have hplaced := hstring image base (hp.of_le (Segments.le_writePointer _ _ _))
      exact readFrozenString_of_stored hp hplaced (hsegment ▸ hk) (hsegment ▸ by decide)

theorem loadString_of_readFrozenString {image : List UInt8} {p : Nat} {text : CString}
    (h : readFrozenString image p = some text) :
    loadString image p = some (some text) := by
  have hptr : ∃ target, readPtr image p = some (some target) := by
    simp only [readFrozenString, Option.bind_eq_bind, Option.bind_eq_some_iff] at h
    obtain ⟨target, htarget, _, rfl, -⟩ := h
    exact ⟨_, htarget⟩
  obtain ⟨target, hptr⟩ := hptr
  simp [loadString, hptr, h]

theorem field_loadString (hk : k < strSeg) (text : Option CString) :
    Field S k 4 (writeStringPtr k text) loadString text := by
  cases text with
  | none =>
      refine (field_null (hk.trans (by decide))).of_read fun image p h => ?_
      simp [loadString, h]
  | some text => exact (field_stringPtr hk text).of_read fun image p h => loadString_of_readFrozenString h

/-! ### Arrays -/

/-- The strings begin within the range of a pointer. -/
def SmallBase (base : Nat → Nat) : Prop := base strSeg < 2 ^ 32

section Elems

variable {elem : γ → DagWriter → DagWriter} {val : γ → α} {values : List γ}

theorem field_foldl (h : ∀ x ∈ values, Field S k size (elem x) read (val x)) :
    Field S k (size * values.length) (fun w => values.foldl (fun w x => elem x w) w)
      (fun image p => readElems size read image values.length (some p)) (values.map val) where
  adding := .foldl fun x hx => (h x hx).adding
  grows := .foldl fun x hx => (h x hx).grows
  reads w hw image base hp hS := by
    have helems := readElems_eq_some (Field.elem h hw hp hS)
    rwa [List.length_map] at helems

theorem field_elems (hk : k < j) (hj : j < 6) (h : ∀ x ∈ values, Field S j size (elem x) read (val x)) :
    Field S k 4 (fun w => values.foldl (fun w x => elem x w) (writePointerTo k j w)) (elemsAt size read values.length)
    (values.map val) where
  adding := (adding_writePointerTo k j).comp (.foldl fun x hx => (h x hx).adding)
  grows := (grows_writePointerTo k j).comp ((Grows.foldl fun x hx => (h x hx).grows).keep hk)
  reads w hw image base hp hS := by
    obtain ⟨-, hgood⟩ := adding_writePointerTo k j w hw
    have hle := (Adding.foldl (fun x hx => (h x hx).adding) _ hgood).1
    have hptr : readPtr image (base k + w.segs.size k) = some (some (base j + w.segs.size j)) :=
      (hp.of_le hle).readPtr hk hj
    have helems := (field_foldl h).reads _ hgood image base hp hS
    have hsize : (writePointerTo k j w).segs.size j = w.segs.size j := by
      simp only [writePointerTo, writePointer, Segments.size_writePointer, if_neg hk.ne', Nat.add_zero]
    rw [hsize] at helems
    simp only [elemsAt, hptr, helems, Option.bind_eq_bind, Option.bind_some]

/-- The number of elements is below the number of bytes before the strings. -/
theorem length_lt (hj : j < strSeg) (hsize : 2 ≤ size) (h : ∀ x ∈ values, Field S j size (elem x) read (val x))
    {w : DagWriter} {image : List UInt8} {base : Nat → Nat}
    (hp : Placed 6 (values.foldl (fun w x => elem x w) w).segs image base) (hsmall : SmallBase base) :
    values.length < 2 ^ 31 := by
  have hapart := hp.apart j strSeg hj (by decide)
  rw [(Grows.foldl fun x hx => (h x hx).grows).self w] at hapart
  have hmul : 2 * values.length ≤ size * values.length := Nat.mul_le_mul_right _ hsize
  have hsmall : base strSeg < 2 ^ 32 := hsmall
  omega

/-- An array: the number of its elements and a pointer to them. -/
theorem field_array (hS : ∀ image base, S image base → SmallBase base) (hk : k < j) (hj : j < strSeg) (hsize : 2 ≤ size)
    (h : ∀ x ∈ values, Field S j size (elem x) read (val x)) :
    Field S k 8 (writeArray k j values.length elem values) (readFrozenArray size read) (values.map val) := by
  have hj6 : j < 6 := hj.trans (by decide)
  have hfields := (field_int32 (hk.trans hj6) (.ofNat values.length)).seq (field_elems hk hj6 h)
  refine ⟨hfields.adding, hfields.grows, fun w hw image base hp hbase => ?_⟩
  obtain ⟨hcount, helems⟩ := pairAt_eq_some (hfields.reads w hw image base hp hbase)
  have hlength := length_lt hj hsize h hp (hS image base hbase)
  simp only [elemsAt, Option.bind_eq_bind, Option.bind_eq_some_iff] at helems
  obtain ⟨array, hptr, helems⟩ := helems
  simp only [readFrozenArray, hcount, hptr, toNat_ofNat hlength, helems, Option.bind_eq_bind, Option.bind_some]

theorem field_values {values : List α} {elem : α → DagWriter → DagWriter}
    (hS : ∀ image base, S image base → SmallBase base) (hk : k < j) (hj : j < strSeg) (hsize : 2 ≤ size)
    (h : ∀ x ∈ values, Field S j size (elem x) read x) :
    Field S k 8 (writeArray k j values.length elem values) (readFrozenArray size read) values := by
  have hfield := field_array hS hk hj hsize h
  rwa [List.map_id'] at hfield

theorem field_twoArrays {δ : Type} {elem' : δ → DagWriter → DagWriter} {val' : δ → β} {values' : List δ} {j' : Nat}
    (hS : ∀ image base, S image base → SmallBase base) (hk : k < j) (hj : j < strSeg) (hk' : k < j')
    (hj' : j' < strSeg) (hsize : 2 ≤ size) (hlength : values'.length = values.length)
    (h : ∀ x ∈ values, Field S j size (elem x) read (val x))
    (h' : ∀ x ∈ values', Field S j' size' (elem' x) read' (val' x)) :
    Field S k 12 (fun w => values'.foldl (fun w x => elem' x w)
    (writePointerTo k j' (writeArray k j values.length elem values w)))
      (readTwoArrays size read size' read') (values.map val, values'.map val') := by
  have hj6 : j < 6 := hj.trans (by decide)
  have hsecond := field_elems hk' (hj'.trans (by decide)) h'
  have hfields := (field_int32 (hk.trans hj6) (.ofNat values.length)).seq ((field_elems hk hj6 h).seq hsecond)
  refine ⟨hfields.adding, hfields.grows, fun w hw image base hp hbase => ?_⟩
  obtain ⟨hcount, hrest⟩ := pairAt_eq_some (hfields.reads w hw image base hp hbase)
  obtain ⟨helems, helems'⟩ := pairAt_eq_some hrest
  have hgood := ((field_array hS hk hj hsize h).adding w hw).2
  have hcount_lt := length_lt hj hsize h (hp.of_le (hsecond.adding _ hgood).1) (hS image base hbase)
  rw [Nat.add_assoc _ 4 4, hlength] at helems'
  simp only [elemsAt, Option.bind_eq_bind, Option.bind_eq_some_iff] at helems helems'
  obtain ⟨array, hptr, helems⟩ := helems
  obtain ⟨array', hptr', helems'⟩ := helems'
  simp only [readTwoArrays, hcount, hptr, hptr', toNat_ofNat hcount_lt, helems, helems', Option.bind_eq_bind,
    Option.bind_some, Option.pure_def]

end Elems

theorem field_noArray (hk : k < 6) : Field S k 8 (writeNoArray k) (readFrozenArray size read) [] := by
  refine ((field_int32 hk 0).seq (field_null hk)).of_read fun image p h => ?_
  obtain ⟨hcount, hptr⟩ := pairAt_eq_some h
  simp only [readFrozenArray, hcount, hptr, Option.bind_eq_bind, Option.bind_some]
  exact readElems_zero _ _ _

theorem field_arrayIf {values : List γ} {val : γ → α} (hk : k < 6)
    (hf : Field S k 8 f (readFrozenArray size read) (values.map val)) :
    Field S k 8 (fun w => if values.length > 0 then f w else writeNoArray k w) (readFrozenArray size read)
    (values.map val) := by
  cases values with
  | nil => exact field_noArray hk
  | cons x xs => exact hf

end DagWriter

end Tundra
