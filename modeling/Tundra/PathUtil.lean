import Tundra.Common

/-!
# Paths

`PathUtil.cpp`: a path is taken apart into segments, with the `..` that lead out of it counted, and put together
again. A buffer holds 64 segments and 512 bytes, and the program ends with a message where a path does not fit:
there a function has no value here.

`m_SegEnds` and `m_Data` are the segments one after another. `PathConcat` only checks that they fit in checked
builds; without room it has no value either.
-/

namespace Tundra

def kMaxPathLength : Nat := 512

def kMaxPathSegments : Nat := 64

inductive PathType where
  | unix
  | windows
deriving DecidableEq

structure PathBuffer where
  type : PathType
  /-- `kFlagAbsolute`. -/
  absolute : Bool
  /-- `kFlagWindowsDevicePath`. -/
  windowsDevicePath : Bool
  leadingDotDots : Nat
  segments : List CString
deriving DecidableEq

/-- `PathSeg`. The offset and the length are 16 bits wide. -/
structure PathSeg where
  offset : Nat
  len : Nat
  dotdot : Bool
  drop : Bool

def isSeparator (ch : UInt8) : Bool := ch = 92 || ch = 47

/-- The segment that ends at `pos` and began behind the last separator. -/
def pathSeg (path : CString) (last pos : Nat) : List PathSeg :=
  if pos - last = 0 then []
  else
    let name := (path.slice last (pos - last)).bytes
    [⟨last % 2 ^ 16, (pos - last) % 2 ^ 16, name = [46, 46], name = [46]⟩]

/-- The loop of `PathGetSegments`. -/
def pathGetSegmentsFrom (path : CString) : List UInt8 → Nat → Nat → List PathSeg
  | [], last, pos => pathSeg path last pos
  | ch :: rest, last, pos =>
      if isSeparator ch then pathSeg path last pos ++ pathGetSegmentsFrom path rest (pos + 1) (pos + 1)
      else pathGetSegmentsFrom path rest last (pos + 1)

def pathGetSegments (path : CString) : Option (List PathSeg) :=
  let segments := pathGetSegmentsFrom path path.bytes 0 0
  if segments.length > kMaxPathSegments then none else some segments

/-- The loop that drops the segments a `..` follows, from the last one on: the number of `..` that are left and
the segments that are retained. -/
def dropDotDots (segments : List PathSeg) : Nat × List PathSeg :=
  segments.foldr (fun seg (drops, kept) =>
    if seg.drop then (drops, kept)
    else if seg.dotdot then (drops + 1, kept)
    else if drops > 0 then (drops - 1, kept)
    else (drops, seg :: kept)) (0, [])

/-- Copy the retained segments; no segment may begin beyond the end of the buffer. -/
def copySegments (path : CString) : Nat → List PathSeg → Option (List CString)
  | _, [] => some []
  | outputPos, seg :: rest =>
      if outputPos ≥ kMaxPathLength then none
      else (copySegments path (outputPos + seg.len) rest).map (path.slice seg.offset seg.len :: ·)

def isAlpha (ch : UInt8) : Bool := (65 ≤ ch && ch ≤ 90) || (97 ≤ ch && ch ≤ 122)

/-- The flags of a path, and what is left of it to be taken apart. -/
def pathRoot (path : CString) : PathType → Bool × Bool × CString
  | .unix => if path.bytes.head? = some 47 then (true, false, path.slice 1 path.bytes.length) else (false, false, path)
  | .windows =>
      if path.bytes.head?.any isSeparator then (true, false, path.slice 1 path.bytes.length)
      else if path.bytes.head?.any isAlpha && path.bytes[1]? = some 58 && path.bytes[2]?.any isSeparator then
        (true, true, path)
      else (false, false, path)

def pathInit (path : CString) (type : PathType) : Option PathBuffer := do
  let (absolute, windowsDevicePath, rest) := pathRoot path type
  let segments ← pathGetSegments rest
  let (leadingDotDots, kept) := dropDotDots segments
  let names ← copySegments rest 0 kept
  return ⟨type, absolute, windowsDevicePath, leadingDotDots, names⟩

def PathBuffer.minSegCount (buffer : PathBuffer) : Nat := if buffer.windowsDevicePath then 1 else 0

/-- `PathStripLast`; the flag says whether there was anything to strip. -/
def pathStripLast (buffer : PathBuffer) : Bool × PathBuffer :=
  if buffer.segments.length > buffer.minSegCount then (true, { buffer with segments := buffer.segments.dropLast })
    else (false, buffer)

def bufferSize (segments : List CString) : Nat := (segments.map fun seg => seg.bytes.length).sum

/-- Throw segments away for the `..` of the other path: the segments that are left and the `..` that lead out of
the buffer. -/
def throwAway (minSegCount : Nat) : Nat → Nat × Nat → Nat × Nat
  | 0, c => c
  | n + 1, (segCount, leadingDotDots) =>
      throwAway minSegCount n
        (if segCount > minSegCount then (segCount - 1, leadingDotDots)
        else if segCount = 0 then (segCount, leadingDotDots + 1)
        else (segCount, leadingDotDots))

def pathConcatImpl (buffer other : PathBuffer) : Option PathBuffer :=
  let (segCount, leadingDotDots) :=
    throwAway buffer.minSegCount other.leadingDotDots (buffer.segments.length, buffer.leadingDotDots)
  let segments := buffer.segments.take segCount ++ other.segments
  if segments.length ≤ kMaxPathSegments && bufferSize segments ≤ kMaxPathLength then
    some { buffer with leadingDotDots := if buffer.absolute then 0 else leadingDotDots, segments := segments }
  else none

def pathConcat (buffer other : PathBuffer) : Option PathBuffer :=
  if other.absolute then some other else pathConcatImpl buffer other

def PathType.separator : PathType → CString
  | .windows => ⟨[92], by decide⟩
  | .unix => ⟨[47], by decide⟩

def dotDot : CString := ⟨[46, 46], by decide⟩

/-- The loop of `PathFormatPartial` over the segments. The flag says that a segment was put out before. -/
def formatSegments (sep : CString) : CString → Bool → List CString → Option CString
  | output, _, [] => some output
  | output, more, seg :: rest =>
      if output.bytes.length + seg.bytes.length + 1 ≥ kMaxPathLength then none
      else formatSegments sep (output ++ (if more then sep else .empty) ++ seg) true rest

def pathFormat (buffer : PathBuffer) : Option CString :=
  let sep := buffer.type.separator
  let root := if buffer.absolute && !buffer.windowsDevicePath then sep else .empty
  let dotDots := (List.replicate buffer.leadingDotDots (dotDot ++ sep)).foldl (· ++ ·) root
  formatSegments sep dotDots false buffer.segments

/-! ### Lengths -/

theorem dropDotDots_le (segments : List PathSeg) : (dropDotDots segments).1 ≤ segments.length := by
  induction segments with
  | nil => simp [dropDotDots]
  | cons seg segments ih =>
      simp only [dropDotDots, List.foldr_cons, List.length_cons] at ih ⊢
      split_ifs <;> simp only <;> omega

theorem pathInit_leadingDotDots {path : CString} {type : PathType} {buffer : PathBuffer}
    (h : pathInit path type = some buffer) :
    buffer.leadingDotDots ≤ kMaxPathSegments := by
  simp only [pathInit, Option.bind_eq_bind, Option.bind_eq_some_iff, Option.pure_def, Option.some.injEq] at h
  obtain ⟨segments, hsegments, names, -, rfl⟩ := h
  simp only [pathGetSegments, Option.ite_none_left_eq_some, Option.some.injEq, not_lt, gt_iff_lt] at hsegments
  obtain ⟨hle, rfl⟩ := hsegments
  exact (dropDotDots_le _).trans hle

theorem throwAway_le (minSegCount n segCount leadingDotDots : Nat) :
    (throwAway minSegCount n (segCount, leadingDotDots)).2 ≤ leadingDotDots + n := by
  induction n generalizing segCount leadingDotDots with
  | zero => simp [throwAway]
  | succ n ih =>
      rw [throwAway]
      split_ifs
      · exact (ih _ _).trans (by omega)
      · exact (ih _ _).trans (by omega)
      · exact (ih _ _).trans (by omega)

theorem pathConcat_leadingDotDots {buffer other result : PathBuffer} (h : pathConcat buffer other = some result) :
    result.leadingDotDots ≤ buffer.leadingDotDots + other.leadingDotDots := by
  unfold pathConcat at h
  split_ifs at h
  · cases h
    exact Nat.le_add_left _ _
  · simp only [pathConcatImpl, Option.ite_none_right_eq_some, Option.some.injEq] at h
    obtain ⟨-, rfl⟩ := h
    have := throwAway_le buffer.minSegCount other.leadingDotDots buffer.segments.length buffer.leadingDotDots
    simp only
    split_ifs <;> omega

theorem formatSegments_length {sep output result : CString} {more : Bool} {segments : List CString}
    (hsep : sep.bytes.length ≤ 1) (houtput : output.bytes.length < kMaxPathLength)
    (h : formatSegments sep output more segments = some result) :
    result.bytes.length < kMaxPathLength := by
  induction segments generalizing output more with
  | nil =>
      cases h
      exact houtput
  | cons seg segments ih =>
      rw [formatSegments, Option.ite_none_left_eq_some] at h
      refine ih ?_ h.2
      simp only [CString.bytes_append, List.length_append]
      have hmore : (if more then sep else CString.empty).bytes.length ≤ 1 := by
        split_ifs
        · exact hsep
        · exact Nat.zero_le _
      omega

theorem length_dotDots (sep root : CString) (n : Nat) :
    ((List.replicate n (dotDot ++ sep)).foldl (· ++ ·) root).bytes.length = root.bytes.length + n *
    (2 + sep.bytes.length) := by
  induction n generalizing root with
  | zero => simp
  | succ n ih =>
      rw [List.replicate_succ, List.foldl_cons, ih]
      simp only [CString.bytes_append, List.length_append, dotDot, List.length_cons, List.length_nil]
      ring

theorem pathFormat_length {buffer : PathBuffer} {path : CString} (hdots : buffer.leadingDotDots ≤ 2 * kMaxPathSegments)
    (h : pathFormat buffer = some path) : path.bytes.length < kMaxPathLength := by
  have hsep : buffer.type.separator.bytes.length = 1 := by cases buffer.type <;> rfl
  refine formatSegments_length hsep.le ?_ h
  rw [length_dotDots, hsep]
  have hroot : (if buffer.absolute && !buffer.windowsDevicePath then buffer.type.separator
    else CString.empty).bytes.length ≤ 1 := by
    split_ifs
    · exact hsep.le
    · exact Nat.zero_le _
  simp only [kMaxPathSegments, kMaxPathLength] at hdots ⊢
  omega

end Tundra
