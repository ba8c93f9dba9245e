import Tundra.Lua.StringRefine

/-!
# String buffers are byte strings

The operations on a string buffer, and what each does to a list of bytes. A buffer in memory has the bytes of
the list after any number of operations, as long as no text on the heap shrinks to nothing: then the text that
was in the object before the heap was used comes back.
-/

namespace Tundra

namespace StringBuffer

variable {b : StringBuffer} {p : UInt8 → Bool} {text : List UInt8}

theorem contents_overwritten_iff (h : text.length ≤ b.contents.length) :
    (b.overwritten text).contents = text ↔ ¬(b.heap ≠ [] ∧ b.internal ≠ [] ∧ text = []) := by
  rw [contents_overwritten h]
  split_ifs with hboth
  · obtain ⟨hheap, rfl⟩ := hboth
    exact ⟨fun hinternal hthree => hthree.2.1 hinternal,
      fun hthree => by_contra fun hinternal => hthree ⟨hheap, hinternal, rfl⟩⟩
  · exact ⟨fun _ hthree => hboth ⟨hthree.1, hthree.2.2⟩, fun _ => rfl⟩

theorem beforeLast_cons (p : UInt8 → Bool) (ch : UInt8) (text : List UInt8) :
    beforeLast p (ch :: text) = (beforeLast p text).elim (if p ch then some [] else none) fun front => some
    (ch :: front) := by
  induction text using List.reverseRecOn with
  | nil =>
      rw [beforeLast_nil, Option.elim_none, ← List.nil_append [ch], beforeLast_concat, beforeLast_nil]
  | append_singleton text last ih =>
      rw [← List.cons_append, beforeLast_concat, beforeLast_concat, ih]
      split_ifs <;> rfl

theorem beforeLast_eq_none_iff : beforeLast p text = none ↔ text.all (!p ·) := by
  induction text with
  | nil => simp [beforeLast_nil]
  | cons ch text ih =>
      rw [beforeLast_cons, List.all_cons]
      cases hfound : beforeLast p text with
      | none => simp [ih.mp hfound]
      | some front =>
          have hsome : ¬text.all (!p ·) := fun hall => by
            rw [ih.mpr hall] at hfound
            cases hfound
          simp only [Option.elim_some, reduceCtorEq, Bool.and_eq_true, hsome, and_false]

/-- A text that has its only byte of a kind in front. -/
theorem beforeLast_eq_nil_iff : beforeLast p text = some [] ↔ text.head?.any p ∧ text.tail.all (!p ·) := by
  cases text with
  | nil => simp [beforeLast_nil]
  | cons ch text =>
      rw [beforeLast_cons, List.head?_cons, List.tail_cons, ← beforeLast_eq_none_iff]
      cases beforeLast p text with
      | none => simp
      | some front => simp

theorem beforeLast_of_getLast (h : text.getLast?.any p) : beforeLast p text = some text.dropLast := by
  induction text using List.reverseRecOn with
  | nil => cases h
  | append_singleton text ch _ =>
      rw [List.getLast?_concat, Option.any_some] at h
      rw [beforeLast_concat, if_pos h, List.dropLast_concat]

/-- Nothing stands behind the last byte of a kind when it ends the text. -/
theorem drop_beforeLast_iff {front : List UInt8} (h : beforeLast p text = some front) :
    text.drop (front.length + 1) = [] ↔ text.getLast?.any p := by
  constructor
  · intro hdrop
    induction text using List.reverseRecOn with
    | nil => cases h
    | append_singleton text ch _ =>
        rw [List.getLast?_concat, Option.any_some]
        rw [List.drop_eq_nil_iff, List.length_append, List.length_singleton] at hdrop
        by_contra hch
        rw [beforeLast_concat, if_neg hch] at h
        have hlength := (beforeLast_eq_take h).2
        omega
  · intro hlast
    rw [beforeLast_of_getLast hlast] at h
    cases h
    rw [List.drop_eq_nil_iff, List.length_dropLast]
    omega

end StringBuffer

open StringBuffer

inductive BufferOp where
  | add (data : List UInt8)
  | prepend (data : List UInt8)
  | append (data : List UInt8)
  | prependUnless (data : List UInt8)
  | appendUnless (data : List UInt8)
  | toForwardSlashes
  | toBackSlashes
  | toUppercase
  | toLowercase
  | dropSuffix
  | getFilename
  | getFilenameDir
  | quote
  | escapeForCmdlineDefine
  | nullTerminate
deriving DecidableEq

namespace BufferOp

/-! ### Lists of bytes -/

def withoutBackslash (text : List UInt8) : List UInt8 := if text.getLast? = some 92 then text.dropLast else text

/-- A text as it stands between quotation marks. -/
def quotable (text : List UInt8) : List UInt8 := (withoutBackslash text).flatMap doubled

/-- A text in quotation marks. One that has them only loses a backslash in front of the last one. -/
def quoted (text : List UInt8) : List UInt8 :=
  if text.head? = some 34 ∧ text.getLast? = some 34 then
    if 1 < text.length ∧ text[text.length - 2]? = some 92 then text.take (text.length - 2) ++ [34] else text
  else [34] ++ quotable text ++ [34]

/-- What an operation does to a list of bytes. -/
def onList (text : List UInt8) : BufferOp → List UInt8
  | add data => text ++ data
  | prepend data => data ++ text
  | append data => text ++ data
  | prependUnless data => if data <+: text then text else data ++ text
  | appendUnless data => if data <:+ text then text else text ++ data
  | toForwardSlashes => text.map fun ch => if ch = 92 then 47 else ch
  | toBackSlashes => text.map fun ch => if ch = 47 then 92 else ch
  | toUppercase => text.map fun ch => if 97 ≤ ch ∧ ch ≤ 122 then ch - 32 else ch
  | toLowercase => text.map fun ch => if 65 ≤ ch ∧ ch ≤ 90 then ch + 32 else ch
  | dropSuffix => (beforeLast (· = 46) text).getD text
  | getFilename => (beforeLast isSlash text).elim text fun front => text.drop (front.length + 1)
  | getFilenameDir => (beforeLast isSlash text).getD text
  | quote => quoted text
  | escapeForCmdlineDefine => [92, 34] ++ quotable text ++ [92, 34]
  | nullTerminate => text ++ [0]

/-- Operations that look for the last byte of a kind, with an `int`. -/
def scans : BufferOp → Bool
  | dropSuffix | getFilename | getFilenameDir => true
  | _ => false

/-- Texts that have no bytes at one moment of an operation: what stands in front of the only dot or slash, what
stands behind the last slash, and a backslash that is quoted. -/
def empties (text : List UInt8) : BufferOp → Prop
  | dropSuffix => text.head? = some 46 ∧ 46 ∉ text.tail
  | getFilename => text.getLast?.any isSlash
  | getFilenameDir => text.head?.any isSlash ∧ text.tail.all (!isSlash ·)
  | quote | escapeForCmdlineDefine => text = [92]
  | _ => False

/-! ### Buffers -/

def onBuffer (b : StringBuffer) : BufferOp → StringBuffer
  | add data => b.add data
  | prepend data => b.prepend data
  | append data => b.add data
  | prependUnless data => b.prependUnless data
  | appendUnless data => b.appendUnless data
  | toForwardSlashes => b.toForwardSlashes
  | toBackSlashes => b.toBackSlashes
  | toUppercase => b.toUppercase
  | toLowercase => b.toLowercase
  | dropSuffix => b.dropSuffix
  | getFilename => b.getFilename
  | getFilenameDir => b.getFilenameDir
  | quote => b.quote
  | escapeForCmdlineDefine => b.escapeForCmdlineDefine
  | nullTerminate => b.add [0]

theorem contents_map (b : StringBuffer) (f : UInt8 → UInt8) :
    (b.overwritten (b.contents.map f)).contents = b.contents.map f :=
  contents_overwritten_eq (List.length_map f)

theorem flatMap_doubled_of_count {text : List UInt8} (h : ¬0 < text.count 92) : text.flatMap doubled = text := by
  have hnone : ∀ ch ∈ text, doubled ch = [ch] := by
    intro ch hch
    refine if_neg ?_
    rintro rfl
    exact h (List.count_pos_iff.mpr hch)
  rw [List.flatMap_congr hnone, List.flatMap_singleton']

theorem contents_prepQuoteCommon (b : StringBuffer) :
    b.prepQuoteCommon.contents = b.dropBackslash.contents.flatMap doubled := by
  rw [prepQuoteCommon]
  by_cases hcount : 0 < b.dropBackslash.contents.count 92
  · rw [if_pos hcount]
    exact contents_grown ((Nat.le_add_right _ _).trans_eq (length_flatMap_doubled _).symm)
  · rw [if_neg hcount, flatMap_doubled_of_count hcount]

theorem flatMap_doubled_inj {text : List UInt8} (h : text.flatMap doubled = []) : text = [] := by
  have hlength := congrArg List.length h
  rw [length_flatMap_doubled, List.length_nil] at hlength
  exact List.eq_nil_of_length_eq_zero (by omega)

theorem contents_dropBackslash (b : StringBuffer) :
    b.dropBackslash.contents = if b.heap ≠ [] ∧ b.contents = [92] then b.internal else withoutBackslash b.contents := by
  rw [dropBackslash, withoutBackslash]
  by_cases hlast : b.contents.getLast? = some 92
  · obtain ⟨front, hfront⟩ := List.getLast?_eq_some_iff.mp hlast
    rw [if_pos hlast, if_pos hlast, contents_overwritten (by rw [List.length_dropLast]; omega), hfront,
      List.dropLast_concat]
    cases front with
    | nil => simp
    | cons ch front => simp
  · have hne : b.contents ≠ [92] := fun heq => hlast (by rw [heq]; rfl)
    rw [if_neg hlast, if_neg hlast, if_neg fun hboth => hne hboth.2]

theorem prepQuoteCommon_iff (b : StringBuffer) :
    b.prepQuoteCommon.contents = quotable b.contents ↔ ¬(b.heap ≠ [] ∧ b.internal ≠ [] ∧ b.contents = [92]) := by
  rw [contents_prepQuoteCommon, contents_dropBackslash, quotable]
  split_ifs with hboth
  · obtain ⟨hheap, hcontents⟩ := hboth
    rw [hcontents]
    constructor
    · exact fun htext hthree => hthree.2.1 (flatMap_doubled_inj htext)
    · intro hthree
      rw [by_contra fun hinternal => hthree ⟨hheap, hinternal, rfl⟩]
      rfl
  · exact ⟨fun _ hthree => hboth ⟨hthree.1, hthree.2.2⟩, fun _ => rfl⟩

theorem quote_iff (b : StringBuffer) :
    b.quote.contents = quoted b.contents ↔ ¬(b.heap ≠ [] ∧ b.internal ≠ [] ∧ b.contents = [92]) := by
  rw [StringBuffer.quote, quoted]
  by_cases hquoted : b.contents.head? = some 34 ∧ b.contents.getLast? = some 34
  · have hne : b.contents ≠ [92] := fun heq => by rw [heq] at hquoted; exact absurd hquoted (by decide)
    rw [if_pos hquoted, if_pos hquoted]
    refine iff_of_true ?_ fun hthree => hne hthree.2.2
    split_ifs with hlong
    · have hlength : (b.contents.take (b.contents.length - 2) ++ [34]).length ≤ b.contents.length := by
        rw [List.length_append, List.length_take, List.length_singleton]
        omega
      rw [contents_overwritten hlength,
        if_neg fun hboth => List.append_ne_nil_of_right_ne_nil _ (List.cons_ne_nil _ _) hboth.2]
    · rfl
  · rw [if_neg hquoted, if_neg hquoted, contents_add, contents_prepend, List.append_left_inj, List.append_right_inj,
      prepQuoteCommon_iff]

/-! ### One operation -/

theorem shrunk_iff (b : StringBuffer) (p : UInt8 → Bool) :
    ((beforeLast p b.contents).elim b b.overwritten).contents = (beforeLast p b.contents).getD b.contents ↔
      ¬(b.heap ≠ [] ∧ b.internal ≠ [] ∧ beforeLast p b.contents = some []) := by
  cases hfound : beforeLast p b.contents with
  | none => simp
  | some front =>
      rw [Option.elim_some, Option.getD_some, contents_overwritten_iff (beforeLast_eq_take hfound).2.le,
        Option.some.injEq]

theorem onBuffer_dropSuffix (b : StringBuffer) :
    onBuffer b dropSuffix = (beforeLast (· = 46) b.contents).elim b b.overwritten := by
  rw [onBuffer, StringBuffer.dropSuffix]
  cases beforeLast (· = 46) b.contents <;> rfl

theorem onBuffer_getFilenameDir (b : StringBuffer) :
    onBuffer b getFilenameDir = (beforeLast isSlash b.contents).elim b b.overwritten := by
  rw [onBuffer, StringBuffer.getFilenameDir]
  cases beforeLast isSlash b.contents <;> rfl

theorem getFilename_iff (b : StringBuffer) : (onBuffer b getFilename).contents = onList b.contents getFilename ↔
    ¬(b.heap ≠ [] ∧ b.internal ≠ [] ∧ empties b.contents getFilename) := by
  rw [onBuffer, onList, empties, StringBuffer.getFilename]
  cases hfound : beforeLast isSlash b.contents with
  | none =>
      refine iff_of_true rfl fun hthree => ?_
      rw [beforeLast_of_getLast hthree.2.2] at hfound
      cases hfound
  | some front =>
      rw [← drop_beforeLast_iff hfound]
      exact contents_overwritten_iff (by rw [List.length_drop]; omega)

/-- An operation does to a buffer what it does to the list, unless it leaves a buffer on the heap without a text
and there was one in the object. -/
theorem contents_onBuffer_iff (op : BufferOp) (b : StringBuffer) :
    (op.onBuffer b).contents = op.onList b.contents ↔ ¬(b.heap ≠ [] ∧ b.internal ≠ [] ∧ op.empties b.contents) := by
  cases op with
  | add data | append data => exact iff_of_true (contents_add b data) fun hthree => hthree.2.2
  | prepend data => exact iff_of_true (contents_prepend b data) fun hthree => hthree.2.2
  | nullTerminate => exact iff_of_true (contents_add b [0]) fun hthree => hthree.2.2
  | prependUnless data =>
      refine iff_of_true ?_ fun hthree => hthree.2.2
      rw [onBuffer, onList, StringBuffer.prependUnless]
      split_ifs
      · rfl
      · exact contents_prepend b data
  | appendUnless data =>
      refine iff_of_true ?_ fun hthree => hthree.2.2
      rw [onBuffer, onList, StringBuffer.appendUnless]
      split_ifs
      · rfl
      · exact contents_add b data
  | toForwardSlashes | toBackSlashes | toUppercase | toLowercase =>
      exact iff_of_true (contents_map b _) fun hthree => hthree.2.2
  | dropSuffix =>
      have hempties : beforeLast (· = 46) b.contents = some [] ↔ b.contents.head? = some 46 ∧ 46 ∉ b.contents.tail := by
        rw [beforeLast_eq_nil_iff, Option.any_eq_true, List.all_eq_true]
        simp only [decide_eq_true_eq, exists_eq_right, Bool.not_eq_true', decide_eq_false_iff_not]
        exact and_congr_right fun _ => ⟨fun hall hdot => hall _ hdot rfl, fun hnone ch hch heq => hnone (heq ▸ hch)⟩
      rw [onBuffer_dropSuffix, onList, shrunk_iff, hempties]
      rfl
  | getFilename => exact getFilename_iff b
  | getFilenameDir =>
      rw [onBuffer_getFilenameDir, onList, shrunk_iff, beforeLast_eq_nil_iff]
      rfl
  | quote => exact quote_iff b
  | escapeForCmdlineDefine =>
      rw [onBuffer, onList, StringBuffer.escapeForCmdlineDefine, contents_add, contents_prepend, List.append_left_inj,
        List.append_right_inj,
        prepQuoteCommon_iff]
      rfl

/-! ### In memory -/

def onMemory (m : StringMemory) : BufferOp → Option StringMemory
  | add data => m.add data
  | prepend data => m.prepend data
  | append data => m.add data
  | prependUnless data => m.prependUnless data
  | appendUnless data => m.appendUnless data
  | toForwardSlashes => m.toForwardSlashes
  | toBackSlashes => m.toBackSlashes
  | toUppercase => m.toUppercase
  | toLowercase => m.toLowercase
  | dropSuffix => m.dropSuffix
  | getFilename => m.getFilename
  | getFilenameDir => m.getFilenameDir
  | quote => m.quote
  | escapeForCmdlineDefine => m.escapeForCmdlineDefine
  | nullTerminate => m.nullTerminate

theorem onMemory_holds {m : StringMemory} {b : StringBuffer} (h : HoldsBuffer m b) (op : BufferOp)
    (hint : op.scans = true → b.contents.length < 2 ^ 31) :
    ∃ m', op.onMemory m = some m' ∧ HoldsBuffer m' (op.onBuffer b) := by
  cases op with
  | add data | append data => exact h.add data
  | prepend data => exact h.prepend data
  | nullTerminate => exact h.add [0]
  | prependUnless data => exact h.prependUnless data
  | appendUnless data => exact h.appendUnless data
  | toForwardSlashes | toBackSlashes | toUppercase | toLowercase => exact h.convert_all _
  | dropSuffix => exact h.dropSuffix (hint rfl)
  | getFilename => exact h.getFilename (hint rfl)
  | getFilenameDir => exact h.getFilenameDir (hint rfl)
  | quote => exact h.quote
  | escapeForCmdlineDefine => exact h.escapeForCmdlineDefine

end BufferOp

/-- `GetBuffer()[0..GetSize())`. -/
def StringMemory.contents (m : StringMemory) : Option (List UInt8) := m.read 0 m.getSize

theorem HoldsBuffer.contents {m : StringMemory} {b : StringBuffer} (h : HoldsBuffer m b) :
    m.contents = some b.contents := by
  rw [StringMemory.contents, h.read (by rw [h.getSize]; omega), h.getSize, List.drop_zero, List.take_length]

theorem HoldsBuffer.init (internal : Block UInt8 kInternalBufferSize) :
    HoldsBuffer (StringMemory.init internal) StringBuffer.empty :=
  ⟨rfl, rfl, rfl, rfl⟩

/-- What a sequence of operations makes of the empty list of bytes. -/
def listed (ops : List BufferOp) : List UInt8 := ops.foldl (fun text op => op.onList text) []

/-- The texts that an `int` can count, for the operations that search them. -/
def BufferOp.Counted (op : BufferOp) (text : List UInt8) : Prop := op.scans = true → text.length < 2 ^ 31

/-- A text on the heap shrinks to nothing while bytes stand in the object. -/
def BufferOp.Uncovers (op : BufferOp) (m : StringMemory) (text : List UInt8) :
    Prop := m.size ≠ 0 ∧ m.used ≠ 0 ∧ op.empties text

/-- The buffers that a sequence of operations leads to, none of which lets the bytes in the object come back. -/
inductive BufferRun (internal : Block UInt8 kInternalBufferSize) : List BufferOp → StringMemory → Prop
  | init : BufferRun internal [] (StringMemory.init internal)
  | step {ops : List BufferOp} {m m' : StringMemory} (op : BufferOp) (hrun : BufferRun internal ops m)
      (hcounted : op.Counted (listed ops))
      (hcovered : ¬op.Uncovers m (listed ops)) (hstep : op.onMemory m = some m') : BufferRun internal (ops ++ [op]) m'

theorem listed_concat (ops : List BufferOp) (op : BufferOp) : listed (ops ++ [op]) = op.onList (listed ops) := by
  rw [listed, List.foldl_append]
  rfl

namespace HoldsBuffer

variable {m m' : StringMemory} {b : StringBuffer}

theorem uncovers_iff (h : HoldsBuffer m b) (op : BufferOp) :
    op.Uncovers m b.contents ↔ b.heap ≠ [] ∧ b.internal ≠ [] ∧ op.empties b.contents := by
  simp only [BufferOp.Uncovers, h.size_ne_zero_iff, h.used, ne_eq, List.length_eq_zero_iff]

theorem onMemory_iff (h : HoldsBuffer m b) (op : BufferOp) (hint : op.Counted b.contents) :
    ∃ m', op.onMemory m = some m' ∧ HoldsBuffer m' (op.onBuffer b) ∧
      (m'.contents = some (op.onList b.contents) ↔ ¬op.Uncovers m b.contents) := by
  obtain ⟨m', hstep, h'⟩ := op.onMemory_holds h hint
  refine ⟨m', hstep, h', ?_⟩
  rw [h'.contents, Option.some.injEq, op.contents_onBuffer_iff, h.uncovers_iff]

end HoldsBuffer

theorem BufferRun.holds {internal : Block UInt8 kInternalBufferSize} {ops : List BufferOp} {m : StringMemory}
    (h : BufferRun internal ops m) :
    ∃ b, HoldsBuffer m b ∧ b.contents = listed ops := by
  induction h with
  | init => exact ⟨StringBuffer.empty, HoldsBuffer.init internal, rfl⟩
  | step op _ hcounted hcovered hstep ih =>
      obtain ⟨b, hb, hcontents⟩ := ih
      rw [← hcontents] at hcounted hcovered
      obtain ⟨m', hstep', hb', hiff⟩ := hb.onMemory_iff op hcounted
      cases hstep.symm.trans hstep'
      refine ⟨op.onBuffer b, hb', ?_⟩
      rw [listed_concat, ← hcontents]
      exact Option.some.inj (hb'.contents.symm.trans (hiff.mpr hcovered))

/-- A buffer has the bytes of the list after every operation. From there on a further operation has a value, and
its bytes are those of the list exactly if it does not let the bytes in the object come back. -/
theorem stringBuffer_run {internal : Block UInt8 kInternalBufferSize} {ops : List BufferOp} {m : StringMemory}
    (h : BufferRun internal ops m) :
    m.contents = some (listed ops) ∧ ∀ op : BufferOp, op.Counted (listed ops) →
      ∃ m', op.onMemory m = some m' ∧ (m'.contents = some (listed (ops ++ [op])) ↔ ¬op.Uncovers m (listed ops)) := by
  obtain ⟨b, hb, hcontents⟩ := h.holds
  refine ⟨hb.contents.trans (congrArg some hcontents), fun op hcounted => ?_⟩
  rw [← hcontents] at hcounted
  obtain ⟨m', hstep, -, hiff⟩ := hb.onMemory_iff op hcounted
  rw [hcontents, ← listed_concat] at hiff
  exact ⟨m', hstep, hiff⟩

/-- What is in an object before anything is written to it. -/
def zeroedInternal : Block UInt8 kInternalBufferSize := ⟨List.replicate kInternalBufferSize 0, List.length_replicate⟩

/-- `a`, then 64 `b`s and a slash, of which `GetFilename` leaves nothing. -/
def uncoveringOps : List BufferOp := [.add [97], .add (List.replicate 64 98 ++ [47]), .getFilename]

/-- A path that ends in a slash and stands on the heap has the text that was in the object for its file name. -/
theorem stringBuffer_uncovers :
    ¬∀ (internal : Block UInt8 kInternalBufferSize) (ops : List BufferOp) (m : StringMemory),
    ops.foldlM BufferOp.onMemory (StringMemory.init internal) = some m → m.contents = some (listed ops) := by
  intro h
  have hrun : (uncoveringOps.foldlM BufferOp.onMemory (StringMemory.init zeroedInternal)).bind StringMemory.contents =
    some [97] := by
    decide +kernel
  have hlisted : listed uncoveringOps = [] := by decide +kernel
  obtain ⟨m, hm, hcontents⟩ := Option.bind_eq_some_iff.mp hrun
  have hempty := h zeroedInternal uncoveringOps m hm
  rw [hcontents, hlisted] at hempty
  cases hempty

/-- An object file's name that moves to the heap. -/
theorem stringBuffer_run_program :
    ∃ m, BufferRun zeroedInternal [.add [111], .prepend (List.replicate 70 97), .append [46, 99], .dropSuffix] m ∧
    m.contents = some (listed [.add [111], .prepend (List.replicate 70 97), .append [46, 99], .dropSuffix]) := by
  have h₀ : BufferRun zeroedInternal [] _ := .init
  obtain ⟨m₁, hstep₁, -⟩ := (stringBuffer_run h₀).2 (.add [111]) (fun hscans => by cases hscans)
  have h₁ := h₀.step (.add [111]) (fun hscans => by cases hscans) (fun huncovers => huncovers.2.2) hstep₁
  obtain ⟨m₂, hstep₂, -⟩ := (stringBuffer_run h₁).2 (.prepend (List.replicate 70 97)) (fun hscans => by cases hscans)
  have h₂ := h₁.step (.prepend (List.replicate 70 97)) (fun hscans => by cases hscans)
    (fun huncovers => huncovers.2.2) hstep₂
  obtain ⟨m₃, hstep₃, -⟩ := (stringBuffer_run h₂).2 (.append [46, 99]) (fun hscans => by cases hscans)
  have h₃ := h₂.step (.append [46, 99]) (fun hscans => by cases hscans) (fun huncovers => huncovers.2.2) hstep₃
  have hcounted : BufferOp.dropSuffix.Counted
    (listed [.add [111], .prepend (List.replicate 70 97), .append [46, 99]]) :=
    fun _ => by decide +kernel
  have hcovered : ¬BufferOp.dropSuffix.Uncovers m₃
    (listed [.add [111], .prepend (List.replicate 70 97), .append [46, 99]]) :=
    fun huncovers => absurd huncovers.2.2.1 (by decide +kernel)
  obtain ⟨m₄, hstep₄, -⟩ := (stringBuffer_run h₃).2 .dropSuffix hcounted
  have h₄ := h₃.step _ hcounted hcovered hstep₄
  exact ⟨m₄, h₄, (stringBuffer_run h₄).1⟩

end Tundra
