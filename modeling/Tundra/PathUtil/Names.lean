import Tundra.PathUtil
import Tundra.Lib.Walk
import Mathlib.Data.List.Forall2

/-!
# The names of a path

A path is a walk: between its separators there are names, `.` stays where it is and `..` goes up. `PathInit`
takes a path apart from left to right and then reduces it from right to left. What it stores is what the walk
comes to, as long as the path is short enough for its offsets.
-/

namespace Tundra

def pieceNames (pieces : List (List UInt8)) : List CString := (pieces.filter (· ≠ [])).map .ofBytes

def pathNames (path : CString) : List CString := pieceNames (path.bytes.splitOnP isSeparator)

def pathStep (name : CString) : Option (WalkStep CString) :=
  if name.bytes = [46] then none else if name.bytes = [46, 46] then some .up else some (.down name)

def pathWalk (path : CString) : Walk CString := .ofSteps ((pathNames path).filterMap pathStep)

structure FlagsOf (seg : PathSeg) (name : CString) : Prop where
  dotdot : seg.dotdot = (name.bytes = [46, 46] : Bool)
  drop : seg.drop = (name.bytes = [46] : Bool)

/-- The segment of a name, with its place narrowed to 16 bits. -/
structure SegAt (path : CString) (seg : PathSeg) (name : CString) : Prop extends FlagsOf seg name where
  place : ∃ last, last + name.bytes.length ≤ path.bytes.length ∧ path.slice last name.bytes.length = name ∧
    seg.offset = last % 2 ^ 16 ∧ seg.len = name.bytes.length % 2 ^ 16

structure SegOf (path : CString) (seg : PathSeg) (name : CString) : Prop extends FlagsOf seg name where
  slice : path.slice seg.offset seg.len = name
  len : seg.len = name.bytes.length

variable {path : CString}

theorem CString.ofBytes_bytes (s : CString) : CString.ofBytes s.bytes = s := by
  refine CString.ext_bytes (List.takeWhile_eq_self_iff.mpr fun ch hch => ?_)
  rw [decide_eq_true_eq]
  rintro rfl
  exact s.noNul hch

@[simp] theorem pieceNames_nil : pieceNames [] = [] := rfl

theorem pieceNames_append (l r : List (List UInt8)) : pieceNames (l ++ r) = pieceNames l ++ pieceNames r := by
  rw [pieceNames, List.filter_append, List.map_append, pieceNames, pieceNames]

theorem pieceNames_cons (s : CString) (pieces : List (List UInt8)) :
    pieceNames (s.bytes :: pieces) = (if s.bytes = [] then [] else [s]) ++ pieceNames pieces := by
  rw [pieceNames, pieceNames, List.filter_cons]
  split_ifs with hpiece hempty hempty
  · simp [hempty] at hpiece
  · rw [List.map_cons, CString.ofBytes_bytes, List.singleton_append]
  · rfl
  · simp [hempty] at hpiece

theorem length_slice {offset len : Nat} (h : offset + len ≤ path.bytes.length) :
    (path.slice offset len).bytes.length = len := by
  rw [CString.slice, List.length_take, List.length_drop]
  omega

theorem slice_succ {last pos : Nat} (hlast : last ≤ pos) {ch : UInt8} (hch : path.bytes[pos]? = some ch) :
    (path.slice last (pos + 1 - last)).bytes = (path.slice last (pos - last)).bytes ++ [ch] := by
  have hsub : pos + 1 - last = pos - last + 1 := by omega
  have hget : (path.bytes.drop last)[pos - last]? = some ch := by
    rw [List.getElem?_drop, Nat.add_sub_cancel' hlast, hch]
  simp only [CString.slice]
  rw [hsub, List.take_add_one, hget]
  rfl

theorem SegAt.segOf (hlen : path.bytes.length < 2 ^ 16) {seg : PathSeg} {name : CString} (h : SegAt path seg name) :
    SegOf path seg name := by
  obtain ⟨last, hle, hslice, hoffset, hsize⟩ := h.place
  rw [Nat.mod_eq_of_lt (by omega)] at hoffset hsize
  refine ⟨h.toFlagsOf, ?_, hsize⟩
  rw [hoffset, hsize]
  exact hslice

theorem segAt_pathSeg {last pos : Nat} (hlast : last ≤ pos) (hpos : pos ≤ path.bytes.length) :
    List.Forall₂ (SegAt path) (pathSeg path last pos)
    (if (path.slice last (pos - last)).bytes = [] then [] else [path.slice last (pos - last)]) := by
  have hlength : (path.slice last (pos - last)).bytes.length = pos - last := length_slice (by omega)
  unfold pathSeg
  by_cases hzero : pos - last = 0
  · have hempty : (path.slice last (pos - last)).bytes = [] := List.eq_nil_of_length_eq_zero (hlength.trans hzero)
    rw [if_pos hzero, if_pos hempty]
    exact .nil
  · have hne : (path.slice last (pos - last)).bytes ≠ [] := by
      intro hempty
      rw [hempty] at hlength
      exact hzero hlength.symm
    rw [if_neg hzero, if_neg hne]
    refine .cons ⟨⟨rfl, rfl⟩, last, ?_, ?_, rfl, ?_⟩ .nil
    · omega
    · rw [hlength]
    · simp only [hlength]

theorem slice_self_append (path : CString) (pos : Nat) :
    ((path.slice pos (pos - pos)).bytes ++ · : List UInt8 → List UInt8) = id := by
  funext l
  simp [CString.slice]

theorem segAt_pathGetSegmentsFrom {rest : List UInt8} {last pos : Nat} (hlast : last ≤ pos)
    (hpos : pos + rest.length = path.bytes.length) (hrest : path.bytes.drop pos = rest) :
    List.Forall₂ (SegAt path) (pathGetSegmentsFrom path rest last pos)
      (pieceNames ((rest.splitOnP isSeparator).modifyHead ((path.slice last (pos - last)).bytes ++ ·))) := by
  induction rest generalizing last pos with
  | nil =>
      have hsegs := segAt_pathSeg hlast (by simpa using hpos.le)
      rw [pathGetSegmentsFrom, List.splitOnP_nil, List.modifyHead_cons, List.append_nil, pieceNames_cons,
        pieceNames_nil, List.append_nil]
      exact hsegs
  | cons ch rest ih =>
      rw [List.length_cons] at hpos
      have hrest' : path.bytes.drop (pos + 1) = rest := by
        rw [← List.tail_drop, hrest, List.tail_cons]
      have hch : path.bytes[pos]? = some ch := by
        have hhead : (path.bytes.drop pos)[0]? = path.bytes[pos + 0]? := List.getElem?_drop
        rw [hrest] at hhead
        exact hhead.symm
      rw [pathGetSegmentsFrom, List.splitOnP_cons_eq_if_modifyHead]
      split_ifs with hsep
      · have hle : pos ≤ path.bytes.length := by omega
        have hsegs := segAt_pathSeg hlast hle
        have htail := ih (Nat.le_refl (pos + 1)) (by omega) hrest'
        rw [slice_self_append, List.modifyHead_id] at htail
        rw [List.modifyHead_cons, List.append_nil, pieceNames_cons]
        exact List.rel_append hsegs htail
      · have htail := ih (show last ≤ pos + 1 by omega) (by omega) hrest'
        rw [slice_succ hlast hch] at htail
        rw [List.modifyHead_modifyHead]
        have hcons : ((path.slice last (pos - last)).bytes ++ ·) ∘ List.cons ch =
          ((path.slice last (pos - last)).bytes ++ [ch] ++ ·) := by
          funext l
          simp
        rw [hcons]
        exact htail

theorem segAt_behind {rest : List UInt8} {pos : Nat} (hpos : pos + rest.length = path.bytes.length)
    (hrest : path.bytes.drop pos = rest) :
    List.Forall₂ (SegAt path) (pathGetSegmentsFrom path rest pos pos) (pieceNames (rest.splitOnP isSeparator)) := by
  have hsegs := segAt_pathGetSegmentsFrom (Nat.le_refl pos) hpos hrest
  rw [slice_self_append, List.modifyHead_id] at hsegs
  exact hsegs

theorem segOf_pathGetSegments (hlen : path.bytes.length < 2 ^ 16) :
    List.Forall₂ (SegOf path) (pathGetSegmentsFrom path path.bytes 0 0) (pathNames path) :=
  (segAt_behind (Nat.zero_add _) List.drop_zero).imp fun _ _ hseg => hseg.segOf hlen

theorem dropDotDots_cons (seg : PathSeg) (segs : List PathSeg) : dropDotDots (seg :: segs) =
    if seg.drop then ((dropDotDots segs).1, (dropDotDots segs).2)
    else if seg.dotdot then ((dropDotDots segs).1 + 1, (dropDotDots segs).2)
    else if (dropDotDots segs).1 > 0 then ((dropDotDots segs).1 - 1, (dropDotDots segs).2)
    else ((dropDotDots segs).1, seg :: (dropDotDots segs).2) := rfl

theorem dropDotDots_walk {R : PathSeg → CString → Prop} (hflags : ∀ {seg name}, R seg name → FlagsOf seg name)
    {segs : List PathSeg} {names : List CString} (h : List.Forall₂ R segs names) :
    (dropDotDots segs).1 = (Walk.ofSteps (names.filterMap pathStep)).ups ∧
      List.Forall₂ R (dropDotDots segs).2 (Walk.ofSteps (names.filterMap pathStep)).names := by
  induction h with
  | nil => exact ⟨rfl, .nil⟩
  | @cons seg name segs names hseg _ ih =>
      obtain ⟨hups, hkept⟩ := ih
      rw [dropDotDots_cons]
      by_cases hdot : name.bytes = [46]
      · have hstep : pathStep name = none := if_pos hdot
        rw [List.filterMap_cons_none hstep, if_pos (by simp [(hflags hseg).drop, hdot])]
        exact ⟨hups, hkept⟩
      · by_cases hdotdot : name.bytes = [46, 46]
        · have hstep : pathStep name = some .up := by rw [pathStep, if_neg hdot, if_pos hdotdot]
          rw [List.filterMap_cons_some hstep, Walk.ofSteps_up_cons, if_neg (by simp [(hflags hseg).drop, hdot]),
            if_pos (by simp [(hflags hseg).dotdot, hdotdot])]
          exact ⟨congrArg (· + 1) hups, hkept⟩
        · have hstep : pathStep name = some (.down name) := by rw [pathStep, if_neg hdot, if_neg hdotdot]
          rw [List.filterMap_cons_some hstep, Walk.ofSteps_down_cons, if_neg (by simp [(hflags hseg).drop, hdot]),
            if_neg (by simp [(hflags hseg).dotdot, hdotdot]), ← hups]
          split_ifs with hpos
          · exact ⟨rfl, hkept⟩
          · exact ⟨by simp only; omega, .cons hseg hkept⟩

/-- The names can be copied: none of them begins beyond the end of the buffer. -/
def CopyFits (pos : Nat) (names : List CString) : Prop := names = [] ∨ pos + bufferSize names.dropLast < kMaxPathLength

instance (pos : Nat) (names : List CString) : Decidable (CopyFits pos names) := inferInstanceAs (Decidable (_ ∨ _))

theorem copyFits_cons {pos : Nat} {name : CString} {names : List CString} :
    CopyFits pos (name :: names) ↔ pos < kMaxPathLength ∧ CopyFits (pos + name.bytes.length) names := by
  cases names with
  | nil => simp [CopyFits, bufferSize]
  | cons name' names =>
      simp only [CopyFits, reduceCtorEq, false_or, List.dropLast_cons_cons, bufferSize, List.map_cons, List.sum_cons]
      omega

theorem copySegments_eq {segs : List PathSeg} {names : List CString} (h : List.Forall₂ (SegOf path) segs names)
    (pos : Nat) :
    copySegments path pos segs = if CopyFits pos names then some names else none := by
  induction h generalizing pos with
  | nil => rfl
  | @cons seg name segs names hseg _ ih =>
      rw [copySegments, hseg.slice, ih, hseg.len]
      by_cases hpos : pos ≥ kMaxPathLength
      · rw [if_pos hpos, if_neg fun hfits => absurd (copyFits_cons.mp hfits).1 (by omega)]
      · rw [if_neg hpos]
        by_cases hfits : CopyFits (pos + name.bytes.length) names
        · rw [if_pos hfits, if_pos (copyFits_cons.mpr ⟨by omega, hfits⟩)]
          rfl
        · rw [if_neg hfits, if_neg fun hcons => hfits (copyFits_cons.mp hcons).2]
          rfl

/-! ### Taking a path apart -/

theorem pathNames_cons {ch : UInt8} {rest : CString} (hsep : isSeparator ch = true)
    (hpath : path.bytes = ch :: rest.bytes) :
    pathNames path = pathNames rest := by
  rw [pathNames, hpath, List.splitOnP_cons_eq_if_modifyHead, if_pos hsep]
  exact pieceNames_append [[]] _

theorem slice_one {ch : UInt8} {rest : List UInt8} (hpath : path.bytes = ch :: rest) :
    (path.slice 1 path.bytes.length).bytes = rest := by
  simp only [CString.slice, hpath, List.drop_one, List.tail_cons, List.length_cons]
  exact List.take_of_length_le (Nat.le_succ _)

theorem pathNames_root (path : CString) (type : PathType) :
    pathNames (pathRoot path type).2.2 = pathNames path ∧
    (pathRoot path type).2.2.bytes.length ≤ path.bytes.length := by
  have hslice : ∀ ch : UInt8, path.bytes.head? = some ch → isSeparator ch = true →
      pathNames (path.slice 1 path.bytes.length) = pathNames path ∧
        (path.slice 1 path.bytes.length).bytes.length ≤ path.bytes.length := by
    intro ch hhead hsep
    obtain ⟨rest, hrest⟩ := List.head?_eq_some_iff.mp hhead
    have hbytes := slice_one hrest
    refine ⟨(pathNames_cons hsep (by rw [hbytes, hrest])).symm, ?_⟩
    rw [hbytes, hrest]
    exact Nat.le_succ _
  cases type with
  | unix =>
      by_cases hslash : path.bytes.head? = some 47
      · simp only [pathRoot, if_pos hslash]
        exact hslice 47 hslash (by decide)
      · have hroot : pathRoot path .unix = (false, false, path) := if_neg hslash
        rw [hroot]
        exact ⟨rfl, Nat.le_refl _⟩
  | windows =>
      by_cases hsep : path.bytes.head?.any isSeparator = true
      · simp only [pathRoot, if_pos hsep]
        rw [Option.any_eq_true] at hsep
        obtain ⟨ch, hhead, hch⟩ := hsep
        exact hslice ch hhead hch
      · simp only [pathRoot, if_neg hsep]
        split_ifs
        · exact ⟨rfl, Nat.le_refl _⟩
        · exact ⟨rfl, Nat.le_refl _⟩

theorem pathInit_eq (hlen : path.bytes.length < 2 ^ 16) (type : PathType) : pathInit path type =
    if (pathNames path).length ≤ kMaxPathSegments ∧ CopyFits 0 (pathWalk path).names then
      some ⟨type, (pathRoot path type).1, (pathRoot path type).2.1, (pathWalk path).ups, (pathWalk path).names⟩
    else none := by
  obtain ⟨hnames, hle⟩ := pathNames_root path type
  set rest := (pathRoot path type).2.2 with hrest
  have hlen' : rest.bytes.length < 2 ^ 16 := lt_of_le_of_lt hle hlen
  have hsegs := segOf_pathGetSegments hlen'
  rw [hnames] at hsegs
  obtain ⟨hups, hkept⟩ := dropDotDots_walk SegOf.toFlagsOf hsegs
  have hcopy := copySegments_eq hkept 0
  have hsteps : Walk.ofSteps ((pathNames path).filterMap pathStep) = pathWalk path := rfl
  rw [hsteps] at hups hcopy
  have hlength := hsegs.length_eq
  have hinit : pathInit path type = (pathGetSegments rest).bind fun segments =>
      (copySegments rest 0 (dropDotDots segments).2).bind fun names =>
        some ⟨type, (pathRoot path type).1, (pathRoot path type).2.1, (dropDotDots segments).1, names⟩ := rfl
  rw [hinit, pathGetSegments]
  simp only [hlength]
  by_cases hcount : (pathNames path).length > kMaxPathSegments
  · rw [if_pos hcount, if_neg fun h => absurd h.1 (by omega)]
    rfl
  · rw [if_neg hcount, Option.bind_some, hcopy, hups]
    by_cases hfits : CopyFits 0 (pathWalk path).names
    · rw [if_pos hfits, if_pos ⟨by omega, hfits⟩]
      rfl
    · rw [if_neg hfits, if_neg fun h => hfits h.2]
      rfl

/-! ### Putting a path together -/

/-- The bytes of a path: the root, the `..` that lead out of it, and the names. -/
def PathBuffer.text (buffer : PathBuffer) : List UInt8 :=
  (if buffer.absolute && !buffer.windowsDevicePath then buffer.type.separator.bytes else []) ++
    (List.replicate buffer.leadingDotDots (dotDot.bytes ++ buffer.type.separator.bytes)).flatten ++
    buffer.type.separator.bytes.intercalate (buffer.segments.map CString.bytes)

def sepNames (sep : List UInt8) (names : List CString) : List UInt8 := names.flatMap fun name => sep ++ name.bytes

theorem intercalate_cons_names (sep : List UInt8) (name : CString) (names : List CString) :
    sep.intercalate ((name :: names).map CString.bytes) = name.bytes ++ sepNames sep names := by
  induction names generalizing name with
  | nil => simp [sepNames]
  | cons name' names ih =>
      rw [List.map_cons, List.intercalate_cons_of_ne_nil (by simp), ih, sepNames, sepNames, List.flatMap_cons]
      simp

theorem formatSegments_true {sep output result : CString} {names : List CString}
    (h : formatSegments sep output true names = some result) :
    result.bytes = output.bytes ++ sepNames sep.bytes names := by
  induction names generalizing output with
  | nil =>
      cases h
      simp [sepNames]
  | cons name names ih =>
      rw [formatSegments, Option.ite_none_left_eq_some] at h
      rw [ih h.2]
      simp [sepNames]

theorem bytes_dotDots (sep root : CString) (n : Nat) : ((List.replicate n (dotDot ++ sep)).foldl (· ++ ·) root).bytes =
    root.bytes ++ (List.replicate n (dotDot.bytes ++ sep.bytes)).flatten := by
  induction n generalizing root with
  | zero => simp
  | succ n ih =>
      rw [List.replicate_succ, List.foldl_cons, ih, List.replicate_succ, List.flatten_cons]
      simp

theorem pathFormat_text {buffer : PathBuffer} {result : CString} (h : pathFormat buffer = some result) :
    result.bytes = buffer.text := by
  have hroot : (if (buffer.absolute && !buffer.windowsDevicePath) = true then buffer.type.separator
    else CString.empty).bytes =
      if (buffer.absolute && !buffer.windowsDevicePath) = true then buffer.type.separator.bytes else [] := by
    split_ifs <;> rfl
  rw [PathBuffer.text, ← hroot, ← bytes_dotDots]
  cases hsegs : buffer.segments with
  | nil =>
      rw [pathFormat, hsegs] at h
      cases h
      simp
  | cons name names =>
      rw [pathFormat, hsegs, formatSegments, Option.ite_none_left_eq_some] at h
      rw [formatSegments_true h.2, intercalate_cons_names]
      simp [CString.empty]

theorem formatSegments_isSome {sep output : CString} {names : List CString} (hsep : sep.bytes.length = 1)
    (hfits : names = [] ∨ output.bytes.length + (sepNames sep.bytes names).length < kMaxPathLength) :
    ∃ result, formatSegments sep output true names = some result := by
  induction names generalizing output with
  | nil => exact ⟨output, rfl⟩
  | cons name names ih =>
      rcases hfits with hnil | hfits
      · cases hnil
      simp only [sepNames, List.flatMap_cons, List.length_append, hsep] at hfits
      rw [formatSegments, if_neg (by omega)]
      refine ih (.inr ?_)
      simp only [CString.bytes_append, List.length_append, if_true, hsep, sepNames]
      omega

theorem pathFormat_isSome {buffer : PathBuffer}
    (hfits : buffer.segments = [] ∨ buffer.text.length + 1 < kMaxPathLength) :
    ∃ result, pathFormat buffer = some result := by
  have hsep : buffer.type.separator.bytes.length = 1 := by cases buffer.type <;> rfl
  cases hsegs : buffer.segments with
  | nil =>
      rw [pathFormat, hsegs]
      exact ⟨_, rfl⟩
  | cons name names =>
      rcases hfits with hnil | hfits
      · rw [hsegs] at hnil
        cases hnil
      have hroot : (if (buffer.absolute && !buffer.windowsDevicePath) = true then buffer.type.separator
        else CString.empty).bytes =
          if (buffer.absolute && !buffer.windowsDevicePath) = true then buffer.type.separator.bytes else [] := by
        split_ifs <;> rfl
      rw [PathBuffer.text, ← hroot, ← bytes_dotDots, hsegs, intercalate_cons_names] at hfits
      simp only [List.length_append] at hfits
      rw [pathFormat, hsegs, formatSegments, if_neg (by omega)]
      refine formatSegments_isSome hsep (.inr ?_)
      have hempty : CString.empty.bytes.length = 0 := rfl
      simp only [CString.bytes_append, List.length_append, Bool.false_eq_true, if_false, hempty]
      omega

end Tundra
