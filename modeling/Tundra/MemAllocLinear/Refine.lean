import Tundra.MemAllocLinear

/-!
# The linear allocator is a heap with scopes

For a client that uses its pointers only as long as they are good, the linear allocator is a heap of blocks that
do not touch each other: what was written through one pointer is read through it, and through no other one,
until the block is given up. The blocks lie in the memory that the heap has handed out, and are aligned as was
asked for up to `kMaxAlignment`.

This is so as long as the sums of sizes and alignments do not wrap, and for an allocator that is not smaller
than what its alignment may cost.
-/

namespace Tundra

open Arena

/-- An operation of a heap with scopes. A block that is allocated may hold anything. -/
inductive HeapStep : Heap UInt8 → ArenaOp → Heap UInt8 → Prop
  | allocate {h : Heap UInt8} {size align : UInt64} (data : List UInt8) (hdata : data.length = size.toNat) :
      HeapStep h (.allocate size align) (h.allocate data)
  | strDup {h : Heap UInt8} (str : CString) : HeapStep h (.strDup str) (h.allocate (str.bytes ++ [0]))
  | store {h : Heap UInt8} {index pos : Nat} {block : List UInt8} {byte : UInt8}
      (hblock : h.blocks[index]? = some block) (hpos : pos < block.length) :
      HeapStep h (.store index pos byte) (h.store index pos byte)
  | enter {h : Heap UInt8} : HeapStep h .enter h.enter
  | leave {h : Heap UInt8} (hopen : h.scopes ≠ []) : HeapStep h .leave h.leave
  | reset {h : Heap UInt8} : HeapStep h .reset h.reset

inductive HeapRun : Heap UInt8 → List ArenaOp → Heap UInt8 → Prop
  | nil (h : Heap UInt8) : HeapRun h [] h
  | cons {h h' h'' : Heap UInt8} {op : ArenaOp} {ops : List ArenaOp} (hstep : HeapStep h op h')
      (hrun : HeapRun h' ops h'') : HeapRun h (op :: ops) h''

/-- The sums of the operation do not wrap, and an alignment is a power of two. -/
def ArenaOp.Fits (maxSize : UInt64) : ArenaOp → Prop
  | .allocate size align => align ≠ 0 ∧ align &&& (align - 1) = 0 ∧ size.toNat + align.toNat + maxSize.toNat ≤ 2 ^ 64
  | .strDup str => str.bytes.length + 2 + maxSize.toNat ≤ 2 ^ 64
  | _ => True

instance (maxSize : UInt64) : ∀ op, Decidable (ArenaOp.Fits maxSize op)
  | .allocate size align => inferInstanceAs
  (Decidable (align ≠ 0 ∧ align &&& (align - 1) = 0 ∧ size.toNat + align.toNat + maxSize.toNat ≤ 2 ^ 64))
  | .strDup str => inferInstanceAs (Decidable (str.bytes.length + 2 + maxSize.toNat ≤ 2 ^ 64))
  | .store _ _ _ => inferInstanceAs (Decidable True)
  | .enter => inferInstanceAs (Decidable True)
  | .leave => inferInstanceAs (Decidable True)
  | .reset => inferInstanceAs (Decidable True)

def Handed.span (t : Handed) : Span := ⟨t.ptr.toNat, t.size⟩

/-- Where the allocator lies in the memory that it got. -/
structure ArenaPlaced (base maxSize : UInt64) (alloc : MemAllocLinear) : Prop where
  aligned : 64 ∣ alloc.pointer.toNat
  base_le : base.toNat ≤ alloc.pointer.toNat
  stop : alloc.pointer.toNat + alloc.size.toNat = base.toNat + maxSize.toNat

variable {base maxSize size align : UInt64} {alloc alloc' : MemAllocLinear} {c c' : ArenaClient} {h : Heap UInt8}
  {op : ArenaOp} {ops : List ArenaOp}
  {ptr : UInt64}

theorem placed_linearAllocInit (hregion : base.toNat + maxSize.toNat + 63 < 2 ^ 64) (hsize : 63 ≤ maxSize.toNat) :
    ArenaPlaced base maxSize (linearAllocInit base maxSize) := by
  have halign : kMaxAlignment.toNat = 2 ^ 6 := rfl
  have hup := Aligned.toNat_up halign (show base.toNat + kMaxAlignment.toNat ≤ 2 ^ 64 by omega)
  have hle := Aligned.le_up (n := base.toNat) (a := kMaxAlignment.toNat) (by omega)
  have hlt := Aligned.up_lt (n := base.toNat) (a := kMaxAlignment.toNat) (by omega)
  have hdvd := Aligned.dvd_up base.toNat kMaxAlignment.toNat
  rw [linearAllocInit]
  generalize (base + kMaxAlignment - 1) &&& ~~~(kMaxAlignment - 1) = alignedBase at hup
  have hbase : base ≤ alignedBase := by
    rw [UInt64.le_iff_toNat_le, hup]
    exact hle
  have hdelta : (alignedBase - base).toNat = alignedBase.toNat - base.toNat := UInt64.toNat_sub_of_le _ _ hbase
  have hpointer : (base + (alignedBase - base)).toNat = alignedBase.toNat := by
    rw [UInt64.toNat_add, hdelta, Nat.mod_eq_of_lt (by omega)]
    omega
  have hrest : (maxSize - (alignedBase - base)).toNat = maxSize.toNat - (alignedBase.toNat - base.toNat) := by
    have hfits : alignedBase - base ≤ maxSize := by
      rw [UInt64.le_iff_toNat_le, hdelta]
      omega
    rw [UInt64.toNat_sub_of_le _ _ hfits, hdelta]
  constructor
  · dsimp only
    rw [hpointer, hup]
    exact hdvd
  · dsimp only
    omega
  · dsimp only
    rw [hpointer, hrest]
    omega

theorem toNat_offset (hfits : alloc.offset.toNat + size.toNat + align.toNat ≤ 2 ^ 64) {k : Nat}
    (hk : align.toNat = 2 ^ k) :
    (alloc.offset + align - 1 &&& ~~~(align - 1)).toNat = Aligned.up alloc.offset.toNat align.toNat ∧
    ((alloc.offset + align - 1 &&& ~~~(align - 1)) + size).toNat = Aligned.up alloc.offset.toNat align.toNat +
    size.toNat := by
  have hpos := Nat.two_pow_pos k
  have hup := Aligned.toNat_up hk (show alloc.offset.toNat + align.toNat ≤ 2 ^ 64 by omega)
  have hlt := Aligned.up_lt (n := alloc.offset.toNat) (a := align.toNat) (by omega)
  refine ⟨hup, ?_⟩
  rw [UInt64.toNat_add, hup, Nat.mod_eq_of_lt (by omega)]

theorem linearAllocate_eq_some (hfits : alloc.offset.toNat + size.toNat + align.toNat ≤ 2 ^ 64) {k : Nat}
    (hk : align.toNat = 2 ^ k) (hpointer : alloc.pointer.toNat + alloc.size.toNat < 2 ^ 64)
    (h : alloc.linearAllocate size align = some (ptr, alloc')) :
    Aligned.up alloc.offset.toNat align.toNat + size.toNat ≤ alloc.size.toNat ∧
      ptr.toNat = alloc.pointer.toNat + Aligned.up alloc.offset.toNat align.toNat ∧
      ∃ offset : UInt64, offset.toNat = Aligned.up alloc.offset.toNat align.toNat + size.toNat ∧
      alloc' = { alloc with offset := offset } := by
  obtain ⟨hup, hsum⟩ := toNat_offset hfits hk
  simp only [MemAllocLinear.linearAllocate] at h
  split_ifs at h with hspace
  rw [UInt64.le_iff_toNat_le, hsum] at hspace
  cases h
  refine ⟨hspace, ?_, _, hsum, rfl⟩
  rw [UInt64.toNat_add, hup, Nat.mod_eq_of_lt (by omega)]

/-! ### The invariant -/

/-- The client's blocks are those of the heap. -/
structure Served (base maxSize : UInt64) (c : ArenaClient) (h : Heap UInt8) : Prop where
  placed : ArenaPlaced base maxSize c.alloc
  within : c.alloc.offset.toNat ≤ c.alloc.size.toNat
  holds : Arena.Holds c.memory (c.live.map Handed.span) h.blocks
  above : ∀ t ∈ c.live, c.alloc.pointer.toNat ≤ t.ptr.toNat ∧ min t.align 64 ∣ t.ptr.toNat
  below : ∀ t ∈ c.live, t.ptr.toNat + t.size ≤ c.alloc.pointer.toNat + c.alloc.offset.toNat
  scopes : c.scopes.map Prod.snd = h.scopes
  saved : ∀ scope ∈ c.scopes, scope.1.toNat ≤ c.alloc.size.toNat ∧ scope.2 ≤ c.live.length ∧
    ∀ t ∈ c.live.take scope.2, t.ptr.toNat + t.size ≤ c.alloc.pointer.toNat + scope.1.toNat
  nested : c.scopes.Pairwise fun inner outer => outer.2 ≤ inner.2

theorem served_init (hplaced : ArenaPlaced base maxSize alloc) (hoffset : alloc.offset = 0) (memory : Nat → UInt8) :
    Served base maxSize (.init alloc memory) .init where
  placed := hplaced
  within := by
    rw [ArenaClient.init, hoffset]
    exact Nat.zero_le _
  holds := .nil
  above t ht := by cases ht
  below t ht := by cases ht
  scopes := rfl
  saved scope hscope := by cases hscope
  nested := .nil

theorem Served.hand (hserved : Served base maxSize c h) (hregion : base.toNat + maxSize.toNat + 63 < 2 ^ 64)
    {k : Nat} (hk : align.toNat = 2 ^ k) (hfits : size.toNat + align.toNat + maxSize.toNat ≤ 2 ^ 64)
    (hhand : c.hand size align = some (ptr, c')) {data : List UInt8} (hdata : data.length = size.toNat) :
    Served base maxSize { c' with memory := write c'.memory ptr.toNat data } (h.allocate data) := by
  have hpos := Nat.two_pow_pos k
  have hplaced := hserved.placed
  have hstop := hplaced.stop
  have hbase := hplaced.base_le
  have hwithin := hserved.within
  obtain ⟨⟨ptr', alloc'⟩, halloc, heq⟩ := Option.map_eq_some_iff.mp hhand
  cases heq
  obtain ⟨hspace, hptr, offset, hoffset, rfl⟩ := linearAllocate_eq_some (by omega) hk (by omega) halloc
  have hle := Aligned.le_up (n := c.alloc.offset.toNat) (a := align.toNat) (by omega)
  have hbehind : ∀ s ∈ c.live.map Handed.span, s.stop ≤ ptr.toNat := by
    intro s hs
    obtain ⟨t, ht, rfl⟩ := List.mem_map.mp hs
    have hbelow := hserved.below t ht
    change t.ptr.toNat + t.size ≤ ptr.toNat
    omega
  have haligned : min align.toNat 64 ∣ ptr.toNat := by
    have hdvd := Aligned.min_dvd k 6
    rw [← hk] at hdvd
    rw [hptr]
    exact Nat.dvd_add (hdvd.2.trans hplaced.aligned) (hdvd.1.trans (Aligned.dvd_up _ _))
  constructor
  · exact ⟨hplaced.aligned, hplaced.base_le, hplaced.stop⟩
  · dsimp only
    omega
  · have hholds := hserved.holds.allocate hbehind data
    rw [List.map_append, List.map_singleton, Handed.span, ← hdata]
    exact hholds
  · intro t ht
    rcases List.mem_append.mp ht with ht | ht
    · exact hserved.above t ht
    · rw [List.mem_singleton.mp ht]
      exact ⟨by dsimp only; omega, haligned⟩
  · intro t ht
    dsimp only
    rcases List.mem_append.mp ht with ht | ht
    · have hbelow := hserved.below t ht
      omega
    · rw [List.mem_singleton.mp ht]
      dsimp only
      omega
  · exact hserved.scopes
  · intro scope hscope
    obtain ⟨hsize, hcount, hsaved⟩ := hserved.saved scope hscope
    refine ⟨hsize, ?_, ?_⟩
    · dsimp only
      rw [List.length_append]
      omega
    · dsimp only
      rw [List.take_append_of_le_length hcount]
      exact hsaved
  · exact hserved.nested

theorem Served.allocate (hserved : Served base maxSize c h) (hregion : base.toNat + maxSize.toNat + 63 < 2 ^ 64)
    (hfits : (ArenaOp.allocate size align).Fits maxSize) (hhand : c.hand size align = some (ptr, c')) :
    ∃ h', HeapStep h (.allocate size align) h' ∧ Served base maxSize c' h' := by
  obtain ⟨hne, hand, hsum⟩ := hfits
  obtain ⟨k, hk⟩ := Aligned.exists_two_pow hne hand
  have hnext := hserved.hand hregion hk hsum hhand (@length_read UInt8 c'.memory ptr.toNat size.toNat)
  rw [write_read] at hnext
  exact ⟨_, .allocate _ length_read, hnext⟩

theorem Served.strDup (hserved : Served base maxSize c h) (hregion : base.toNat + maxSize.toNat + 63 < 2 ^ 64)
    {str : CString} (hfits : (ArenaOp.strDup str).Fits maxSize) (hdup : c.strDup str = some c') :
    ∃ h', HeapStep h (.strDup str) h' ∧ Served base maxSize c' h' := by
  obtain ⟨⟨ptr, c''⟩, hhand, rfl⟩ := Option.map_eq_some_iff.mp hdup
  change str.bytes.length + 2 + maxSize.toNat ≤ 2 ^ 64 at hfits
  have hsize : (UInt64.ofNat (str.bytes.length + 1)).toNat = str.bytes.length + 1 := UInt64.toNat_ofNat_of_lt (by
    have hsize : UInt64.size = 2 ^ 64 := rfl
    omega)
  have hone : (1 : UInt64).toNat = 2 ^ 0 := rfl
  refine ⟨_, .strDup str, hserved.hand hregion hone (by omega) hhand ?_⟩
  rw [hsize, List.length_append]
  rfl

theorem Served.store (hserved : Served base maxSize c h) {index pos : Nat} {byte : UInt8} {t : Handed}
    (ht : c.live[index]? = some t) (hpos : pos < t.size) :
    HeapStep h (.store index pos byte) (h.store index pos byte) ∧
      Served base maxSize { c with memory := write c.memory (t.ptr.toNat + pos) [byte] } (h.store index pos byte) := by
  have hspan : (c.live.map Handed.span)[index]? = some t.span := by rw [List.getElem?_map, ht, Option.map_some]
  have hblock : h.blocks[index]? = some (read c.memory t.span.start t.span.size) := by
    rw [← hserved.holds.contents, List.getElem?_map, hspan, Option.map_some]
  refine ⟨.store hblock (by rw [length_read]; exact hpos), ?_⟩
  exact ⟨hserved.placed, hserved.within, hserved.holds.store hspan hpos byte, hserved.above, hserved.below,
    hserved.scopes, hserved.saved, hserved.nested⟩

theorem Served.enter (hserved : Served base maxSize c h) :
    Served base maxSize { c with scopes := (c.alloc.offset, c.live.length) :: c.scopes } h.enter where
  placed := hserved.placed
  within := hserved.within
  holds := hserved.holds
  above := hserved.above
  below := hserved.below
  scopes := by
    have hlength := hserved.holds.length
    rw [List.length_map] at hlength
    rw [List.map_cons, hserved.scopes, hlength]
    rfl
  saved scope hscope := by
    rcases List.mem_cons.mp hscope with rfl | hscope
    · exact ⟨hserved.within, Nat.le_refl _, fun t ht => hserved.below t (List.mem_of_mem_take ht)⟩
    · exact hserved.saved scope hscope
  nested := List.pairwise_cons.mpr ⟨fun scope hscope => (hserved.saved scope hscope).2.1, hserved.nested⟩

theorem Served.leave (hserved : Served base maxSize c h) {offset : UInt64} {count : Nat} {scopes : List (UInt64 × Nat)}
    (hscopes : c.scopes = (offset, count) :: scopes) :
    HeapStep h .leave h.leave ∧ Served base maxSize
    { c with alloc := c.alloc.leave offset, live := c.live.take count, scopes := scopes } h.leave := by
  have hheap : h.scopes = count :: scopes.map Prod.snd := by rw [← hserved.scopes, hscopes, List.map_cons]
  have hnested := hserved.nested
  rw [hscopes, List.pairwise_cons] at hnested
  obtain ⟨hsize, hcount, hsaved⟩ := hserved.saved (offset, count) (by rw [hscopes]; exact List.mem_cons_self)
  refine ⟨.leave (by rw [hheap]; exact List.cons_ne_nil _ _), ?_⟩
  constructor
  · exact ⟨hserved.placed.aligned, hserved.placed.base_le, hserved.placed.stop⟩
  · exact hsize
  · have htake := hserved.holds.take count
    rw [Heap.leave, hheap, List.map_take]
    exact htake
  · exact fun t ht => hserved.above t (List.mem_of_mem_take ht)
  · exact hsaved
  · rw [Heap.leave, hheap]
    rfl
  · intro scope hscope
    have hle := hnested.1 scope hscope
    obtain ⟨hsize', hcount', hsaved'⟩ := hserved.saved scope (by rw [hscopes]; exact List.mem_cons_of_mem _ hscope)
    refine ⟨hsize', ?_, ?_⟩
    · dsimp only
      rw [List.length_take]
      omega
    · dsimp only
      rw [List.take_take, Nat.min_eq_left hle]
      exact hsaved'
  · exact hnested.2

theorem Served.reset (hserved : Served base maxSize c h) : Served base maxSize c.reset h.reset := by
  constructor
  · exact ⟨hserved.placed.aligned, hserved.placed.base_le, hserved.placed.stop⟩
  · exact Nat.zero_le _
  · exact .nil
  · exact fun t ht => absurd ht List.not_mem_nil
  · exact fun t ht => absurd ht List.not_mem_nil
  · rw [Heap.reset, ← hserved.scopes, ArenaClient.reset, List.map_map, List.map_map]
    rfl
  · intro scope hscope
    obtain ⟨saved, hmem, rfl⟩ := List.mem_map.mp hscope
    exact ⟨(hserved.saved _ hmem).1, Nat.le_refl _, fun t ht => absurd ht (by simp)⟩
  · exact List.pairwise_map.mpr (List.pairwise_of_forall fun _ _ => Nat.le_refl _)

/-- Every operation of the allocator is one of the heap. -/
theorem Served.step (hserved : Served base maxSize c h) (hregion : base.toNat + maxSize.toNat + 63 < 2 ^ 64)
    (hfits : op.Fits maxSize) (hstep : c.step op = some c') : ∃ h', HeapStep h op h' ∧ Served base maxSize c' h' := by
  cases op with
  | allocate size align =>
      obtain ⟨⟨ptr, c''⟩, hhand, rfl⟩ := Option.map_eq_some_iff.mp hstep
      exact hserved.allocate hregion hfits hhand
  | strDup str => exact hserved.strDup hregion hfits hstep
  | store index pos byte =>
      obtain ⟨t, ht, hstore⟩ := Option.bind_eq_some_iff.mp hstep
      split_ifs at hstore with hpos
      cases hstore
      exact ⟨_, hserved.store ht hpos⟩
  | enter =>
      cases hstep
      exact ⟨_, .enter, hserved.enter⟩
  | leave =>
      rw [ArenaClient.step] at hstep
      cases hscopes : c.scopes with
      | nil => simp [hscopes] at hstep
      | cons scope scopes =>
          simp only [hscopes, Option.some.injEq] at hstep
          subst hstep
          exact ⟨_, hserved.leave hscopes⟩
  | reset =>
      cases hstep
      exact ⟨_, .reset, hserved.reset⟩

theorem Served.run (hserved : Served base maxSize c h) (hregion : base.toNat + maxSize.toNat + 63 < 2 ^ 64)
    (hfits : ∀ op ∈ ops, op.Fits maxSize) (hrun : c.run ops = some c') :
    ∃ h', HeapRun h ops h' ∧ Served base maxSize c' h' := by
  induction ops generalizing c h with
  | nil =>
      cases hrun
      exact ⟨h, .nil h, hserved⟩
  | cons op ops ih =>
      rw [ArenaClient.run, List.foldlM_cons] at hrun
      obtain ⟨mid, hstep, hrest⟩ := Option.bind_eq_some_iff.mp hrun
      obtain ⟨hmid, hheap, hserved'⟩ := hserved.step hregion (hfits op List.mem_cons_self) hstep
      obtain ⟨h', hrun', hend⟩ := ih hserved' (fun op' hop' => hfits op' (List.mem_cons_of_mem op hop')) hrest
      exact ⟨h', .cons hheap hrun', hend⟩

/-- The allocator croaks when there is not enough left, and only then. -/
theorem Served.croaks_iff (hserved : Served base maxSize c h) (hfits : (ArenaOp.allocate size align).Fits maxSize) :
    c.step (.allocate size align) = none ↔
    c.alloc.size.toNat < Aligned.up c.alloc.offset.toNat align.toNat + size.toNat := by
  obtain ⟨hne, hand, hsum⟩ := hfits
  obtain ⟨k, hk⟩ := Aligned.exists_two_pow hne hand
  have hstop := hserved.placed.stop
  have hwithin := hserved.within
  have hbase := hserved.placed.base_le
  obtain ⟨-, hoffset⟩ := toNat_offset (show c.alloc.offset.toNat + size.toNat + align.toNat ≤ 2 ^ 64 by omega) hk
  rw [ArenaClient.step, ArenaClient.hand, Option.map_eq_none_iff, Option.map_eq_none_iff, MemAllocLinear.linearAllocate,
    ite_eq_right_iff, UInt64.le_iff_toNat_le, hoffset]
  simp

/-- For a client of the linear allocator its blocks are those of a heap with scopes: they hold what was written
to them, no two of them overlap, and they are aligned and lie in what was allocated for the allocator. The
allocator croaks only when there is not enough left. -/
theorem memAllocLinear_refines {memory : Nat → UInt8} (hregion : base.toNat + maxSize.toNat + 63 < 2 ^ 64)
    (hsize : 63 ≤ maxSize.toNat) (hfits : ∀ op ∈ ops, op.Fits maxSize)
    (hrun : (ArenaClient.init (linearAllocInit base maxSize) memory).run ops = some c) :
    (∃ h, HeapRun .init ops h ∧ (c.live.map fun t => read c.memory t.ptr.toNat t.size) = h.blocks) ∧
    (c.live.Pairwise fun l r => l.ptr.toNat + l.size ≤ r.ptr.toNat) ∧
    (∀ t ∈ c.live, base.toNat ≤ t.ptr.toNat ∧ t.ptr.toNat + t.size ≤ base.toNat + maxSize.toNat ∧
    min t.align 64 ∣ t.ptr.toNat) ∧
    ∀ size align, (ArenaOp.allocate size align).Fits maxSize →
      (c.step (.allocate size align) = none ↔
      c.alloc.size.toNat < Aligned.up c.alloc.offset.toNat align.toNat + size.toNat) := by
  obtain ⟨h, hheap, hserved⟩ := (served_init (placed_linearAllocInit hregion hsize) rfl memory).run hregion hfits hrun
  refine ⟨⟨h, hheap, ?_⟩, List.pairwise_map.mp hserved.holds.ascending, fun t ht => ?_,
    fun size align => hserved.croaks_iff⟩
  · rw [← hserved.holds.contents, List.map_map]
    rfl
  · obtain ⟨hptr, haligned⟩ := hserved.above t ht
    have hbelow := hserved.below t ht
    have hbase := hserved.placed.base_le
    have hstop := hserved.placed.stop
    have hwithin := hserved.within
    exact ⟨by omega, by omega, haligned⟩

/-- A scope with a block that is given up, and a string in its place. -/
theorem memAllocLinear_refines_scope : ∃ c, (ArenaClient.init (linearAllocInit 4104 128) fun _ => 0).run
      [.allocate 4 4, .enter, .allocate 8 8, .store 1 7 5, .leave, .strDup .run, .store 0 3 9] = some c ∧
    c.live = [⟨4160, 4, 4⟩, ⟨4164, 2, 1⟩] ∧ c.live.Pairwise fun l r => l.ptr.toNat + l.size ≤ r.ptr.toNat := by
  have hview : ((ArenaClient.init (linearAllocInit 4104 128) fun _ => 0).run
      [.allocate 4 4, .enter, .allocate 8 8, .store 1 7 5, .leave, .strDup .run, .store 0 3 9]).map ArenaClient.live = some [⟨4160, 4, 4⟩, ⟨4164, 2, 1⟩] := by
    decide +kernel
  obtain ⟨c, hrun, hlive⟩ := Option.map_eq_some_iff.mp hview
  exact ⟨c, hrun, hlive, (memAllocLinear_refines (by decide) (by decide) (by decide +kernel) hrun).2.1⟩

end Tundra
