import Tundra.Common

/-!
# String buffers

`StringBuffer` of `LuaInterpolate.cpp`: up to 64 bytes stand in the object, longer texts on the heap. Which of
the two is in use is told by the size of the heap buffer. The transformations are those of the formatting
options of a variable reference.
-/

namespace Tundra

def kInternalBufferSize : Nat := 64

/-- `StringBuffer`: the used part of `m_InternalBuffer`, and `m_Buffer`. -/
structure StringBuffer where
  internal : List UInt8
  heap : List UInt8
  internal_fits : internal.length ≤ kInternalBufferSize
deriving DecidableEq

namespace StringBuffer

theorem fits_nil : ([] : List UInt8).length ≤ kInternalBufferSize := Nat.zero_le _

def empty : StringBuffer := ⟨[], [], fits_nil⟩

variable (b : StringBuffer)

/-- `GetBuffer` and `GetSize`. -/
def contents : List UInt8 := if b.heap = [] then b.internal else b.heap

/-- The buffer after `Grow`, filled with a text that is as long as the buffer then is. The text stays in the
object while it fits there. -/
def grown (text : List UInt8) : StringBuffer :=
  if h : b.heap = [] ∧ text.length ≤ kInternalBufferSize then ⟨text, [], h.2⟩ else ⟨b.internal, text, b.internal_fits⟩

theorem fits_take (text : List UInt8) : (text.take b.internal.length).length ≤ kInternalBufferSize :=
  (List.length_take_le _ _).trans b.internal_fits

/-- The buffer after `Shrink` or after a change in place. A buffer on the heap that gets a size of 0 is taken
for one in the object, with what was there. -/
def overwritten (text : List UInt8) : StringBuffer :=
  if b.heap = [] then ⟨text.take b.internal.length, [], b.fits_take text⟩ else ⟨b.internal, text, b.internal_fits⟩

/-- `Add` and `Append`. -/
def add (data : List UInt8) : StringBuffer := b.grown (b.contents ++ data)

def prepend (data : List UInt8) : StringBuffer := b.grown (data ++ b.contents)

def prependUnless (data : List UInt8) : StringBuffer := if data <+: b.contents then b else b.prepend data

def appendUnless (data : List UInt8) : StringBuffer := if data <:+ b.contents then b else b.add data

def toForwardSlashes : StringBuffer := b.overwritten (b.contents.map fun ch => if ch = 92 then 47 else ch)

def toBackSlashes : StringBuffer := b.overwritten (b.contents.map fun ch => if ch = 47 then 92 else ch)

def toUppercase : StringBuffer := b.overwritten (b.contents.map fun ch => if 97 ≤ ch ∧ ch ≤ 122 then ch - 32 else ch)

def toLowercase : StringBuffer := b.overwritten (b.contents.map fun ch => if 65 ≤ ch ∧ ch ≤ 90 then ch + 32 else ch)

/-- The text in front of the last byte of a kind, if there is one. -/
def beforeLast (p : UInt8 → Bool) (text : List UInt8) : Option (List UInt8) :=
  match text.reverse.dropWhile fun ch => !p ch with
  | [] => none
  | _ :: rest => some rest.reverse

def dropSuffix : StringBuffer :=
  match beforeLast (· = 46) b.contents with
  | none => b
  | some text => b.overwritten text

def isSlash (ch : UInt8) : Bool := ch = 47 ∨ ch = 92

def getFilename : StringBuffer :=
  match beforeLast isSlash b.contents with
  | none => b
  | some text => b.overwritten (b.contents.drop (text.length + 1))

def getFilenameDir : StringBuffer :=
  match beforeLast isSlash b.contents with
  | none => b
  | some text => b.overwritten text

/-- The loss of a trailing backslash in `PrepQuoteCommon`. -/
def dropBackslash : StringBuffer := if b.contents.getLast? = some 92 then b.overwritten b.contents.dropLast else b

def prepQuoteCommon : StringBuffer :=
  let b := b.dropBackslash
  if 0 < b.contents.count 92 then b.grown (b.contents.flatMap fun ch => if ch = 92 then [92, 92] else [ch]) else b

def quote : StringBuffer :=
  let size := b.contents.length
  if b.contents.head? = some 34 ∧ b.contents.getLast? = some 34 then
    -- already quoted; it must not end in a backslash
    if 1 < size ∧ b.contents[size - 2]? = some 92 then b.overwritten (b.contents.take (size - 2) ++ [34]) else b
  else (b.prepQuoteCommon.prepend [34]).add [34]

def escapeForCmdlineDefine : StringBuffer := (b.prepQuoteCommon.prepend [92, 34]).add [92, 34]

variable {b}

theorem contents_grown {text : List UInt8} (h : b.contents.length ≤ text.length) : (b.grown text).contents = text := by
  rw [grown]
  split_ifs with hfits
  · rfl
  · rw [contents]
    split_ifs with htext
    · -- only a buffer in the object can be empty, and then the text fits there
      refine absurd ⟨?_, ?_⟩ hfits
      · by_contra hheap
        rw [contents, if_neg hheap, show text = [] from htext] at h
        exact hheap (List.eq_nil_of_length_eq_zero (Nat.le_zero.mp h))
      · rw [show text = [] from htext]
        exact fits_nil
    · rfl

@[simp] theorem contents_add (b : StringBuffer) (data : List UInt8) : (b.add data).contents = b.contents ++ data :=
  contents_grown (by simp)

@[simp] theorem contents_prepend (b : StringBuffer) (data : List UInt8) :
    (b.prepend data).contents = data ++ b.contents :=
  contents_grown (by simp)

@[simp] theorem contents_empty : empty.contents = [] := rfl

end StringBuffer

end Tundra
