import Tundra.PathUtil.Names

/-!
# Windows devices

The device of a path is its first segment, and `PathStripLast` and `PathConcat` leave one segment of such a
path. `PathInit` does not: there a `..` that leads out of the rest of the path takes the device back like any
other segment.
-/

namespace Tundra

/-- What can be done to a path: its last segment is stripped, and relative paths are concatenated. -/
inductive PathRun (buffer : PathBuffer) : PathBuffer → Prop where
  | start : PathRun buffer buffer
  | stripLast {current : PathBuffer} : PathRun buffer current → PathRun buffer (pathStripLast current).2
  | concat {current other result : PathBuffer} : PathRun buffer current → other.absolute = false →
      pathConcat current other = some result →
      PathRun buffer result

structure OnDevice (device : CString) (buffer : PathBuffer) : Prop where
  windowsDevicePath : buffer.windowsDevicePath = true
  segCount : 1 ≤ buffer.segments.length
  first : buffer.segments.head? = some device
  leadingDotDots : buffer.leadingDotDots = 0

structure KeepsDevice (device : CString) (buffer : PathBuffer) : Prop where
  format : ∀ text, pathFormat buffer = some text → text = device ∨ ∃ tail, text.bytes = device.bytes ++ 92 :: tail
  run : ∀ current, PathRun buffer current → OnDevice device current

/-- The first segment that is retained of what stands behind a position. -/
def firstRetained (path rest : CString) (pos : Nat) : Option CString :=
  (dropDotDots (pathGetSegmentsFrom path rest.bytes pos pos)).2.head?.map fun seg => path.slice seg.offset seg.len

variable {path rest device : CString} {letter sep : UInt8} {buffer : PathBuffer}

theorem onDevice_iff : OnDevice device buffer ↔
    buffer.windowsDevicePath = true ∧ buffer.leadingDotDots = 0 ∧ ∃ more, buffer.segments = device :: more := by
  constructor
  · rintro ⟨hdevice, -, hfirst, hdots⟩
    exact ⟨hdevice, hdots, List.head?_eq_some_iff.mp hfirst⟩
  · rintro ⟨hdevice, hdots, more, hsegs⟩
    refine ⟨hdevice, ?_, ?_, hdots⟩
    · rw [hsegs]
      exact Nat.succ_pos _
    · rw [hsegs]
      rfl

/-! ### Runs -/

theorem throwAway_pos (n leadingDotDots : Nat) {segCount : Nat} (h : 1 ≤ segCount) :
    1 ≤ (throwAway 1 n (segCount, leadingDotDots)).1 := by
  induction n generalizing segCount leadingDotDots with
  | zero => exact h
  | succ n ih =>
      rw [throwAway]
      split_ifs with hmore hzero
      · exact ih _ (by omega)
      · omega
      · exact ih _ h

theorem OnDevice.minSegCount (h : OnDevice device buffer) : buffer.minSegCount = 1 := by
  rw [PathBuffer.minSegCount, h.windowsDevicePath]
  rfl

theorem OnDevice.stripLast (h : OnDevice device buffer) : OnDevice device (pathStripLast buffer).2 := by
  obtain ⟨hdevice, hdots, more, hsegs⟩ := onDevice_iff.mp h
  rw [pathStripLast, h.minSegCount]
  split_ifs with hmore
  · rw [hsegs, List.length_cons] at hmore
    have hne : more ≠ [] := List.ne_nil_of_length_pos (by omega)
    exact onDevice_iff.mpr ⟨hdevice, hdots, more.dropLast, by simp only [hsegs, List.dropLast_cons_of_ne_nil hne]⟩
  · exact h

theorem OnDevice.concat {other result : PathBuffer} (h : OnDevice device buffer)
    (habsolute : buffer.absolute = true) (hother : other.absolute = false)
    (hconcat : pathConcat buffer other = some result) : OnDevice device result ∧ result.absolute = true := by
  obtain ⟨hdevice, hdots, more, hsegs⟩ := onDevice_iff.mp h
  have hkeep := throwAway_pos other.leadingDotDots buffer.leadingDotDots h.segCount
  rw [pathConcat, if_neg (by rw [hother]; exact Bool.false_ne_true)] at hconcat
  simp only [pathConcatImpl, h.minSegCount, Option.ite_none_right_eq_some, Option.some.injEq] at hconcat
  obtain ⟨-, rfl⟩ := hconcat
  refine ⟨onDevice_iff.mpr ⟨hdevice, if_pos habsolute, ?_⟩, habsolute⟩
  obtain ⟨n, hn⟩ := Nat.exists_eq_add_of_le' hkeep
  simp only [hsegs] at hn ⊢
  rw [hn, List.take_succ_cons, List.cons_append]
  exact ⟨_, rfl⟩

theorem PathRun.onDevice {current : PathBuffer} (h : PathRun buffer current) (hdevice : OnDevice device buffer)
    (habsolute : buffer.absolute = true) : OnDevice device current ∧ current.absolute = true := by
  induction h with
  | start => exact ⟨hdevice, habsolute⟩
  | stripLast _ ih =>
      refine ⟨ih.1.stripLast, ?_⟩
      rw [pathStripLast]
      split_ifs
      · exact ih.2
      · exact ih.2
  | concat _ hother hconcat ih => exact ih.1.concat ih.2 hother hconcat

/-! ### Formatting -/

theorem OnDevice.text (h : OnDevice device buffer) (htype : buffer.type = .windows) :
    buffer.text = device.bytes ∨ ∃ tail, buffer.text = device.bytes ++ 92 :: tail := by
  obtain ⟨hdevice, hdots, more, hsegs⟩ := onDevice_iff.mp h
  have htext : buffer.text = device.bytes ++ sepNames [92] more := by
    rw [PathBuffer.text, hdevice, hdots, hsegs, htype, Bool.not_true, Bool.and_false, List.replicate_zero,
      List.flatten_nil]
    exact intercalate_cons_names [92] device more
  rw [htext]
  cases more with
  | nil => exact .inl (List.append_nil _)
  | cons name names => exact .inr ⟨name.bytes ++ sepNames [92] names, rfl⟩

theorem keepsDevice_iff (htype : buffer.type = .windows) (habsolute : buffer.absolute = true) :
    KeepsDevice device buffer ↔ OnDevice device buffer := by
  constructor
  · intro h
    exact h.run buffer .start
  · intro h
    refine ⟨fun text htext => ?_, fun current hrun => (hrun.onDevice h habsolute).1⟩
    have hbytes := pathFormat_text htext
    rcases h.text htype with hdevice | ⟨tail, htail⟩
    · exact .inl (CString.ext_bytes (hbytes.trans hdevice))
    · exact .inr ⟨tail, hbytes.trans htail⟩

/-! ### Taking a path apart -/

theorem isAlpha_notSeparator (h : isAlpha letter = true) : isSeparator letter = false := by
  by_contra hsep
  rw [Bool.not_eq_false, isSeparator, Bool.or_eq_true, decide_eq_true_eq, decide_eq_true_eq] at hsep
  rcases hsep with rfl | rfl
  · exact absurd h (by decide)
  · exact absurd h (by decide)

theorem copySegments_slices {pos : Nat} {segs : List PathSeg} {names : List CString}
    (h : copySegments path pos segs = some names) :
    names = segs.map fun seg => path.slice seg.offset seg.len := by
  induction segs generalizing pos names with
  | nil =>
      cases h
      rfl
  | cons seg segs ih =>
      rw [copySegments, Option.ite_none_left_eq_some, Option.map_eq_some_iff] at h
      obtain ⟨-, rest, hrest, rfl⟩ := h
      rw [List.map_cons, ih hrest]

/-- Up to 65535 bytes, the first segment that is retained is the first name that the text comes to. -/
theorem firstRetained_eq {pos : Nat} (hlen : path.bytes.length < 2 ^ 16)
    (hpos : pos + rest.bytes.length = path.bytes.length) (hrest : path.bytes.drop pos = rest.bytes) :
    firstRetained path rest pos = (pathWalk rest).names.head? := by
  have hkept := (dropDotDots_walk SegAt.toFlagsOf (segAt_behind hpos hrest)).2
  rw [firstRetained, pathWalk, pathNames]
  generalize (dropDotDots (pathGetSegmentsFrom path rest.bytes pos pos)).2 = segs at hkept ⊢
  generalize (Walk.ofSteps ((pieceNames (rest.bytes.splitOnP isSeparator)).filterMap pathStep)).names = names at hkept ⊢
  cases hkept with
  | nil => rfl
  | cons hseg _ => exact congrArg some (hseg.segOf hlen).slice

section Device

variable (hletter : isAlpha letter = true) (hsep : isSeparator sep = true) (hdevice : device.bytes = [letter, 58])
  (hpath : path.bytes = letter :: 58 :: sep :: rest.bytes)

include hdevice hpath in
theorem slice_device : path.slice 0 2 = device := by
  refine CString.ext_bytes ?_
  rw [hdevice]
  simp [CString.slice, hpath]

include hletter hsep hdevice hpath in
theorem pathGetSegmentsFrom_device :
    pathGetSegmentsFrom path path.bytes 0 0 = ⟨0, 2, false, false⟩ :: pathGetSegmentsFrom path rest.bytes 3 3 := by
  have hcolon : isSeparator 58 = false := by decide
  have hslice : (path.slice 0 (2 - 0)).bytes = [letter, 58] :=
    (congrArg CString.bytes (slice_device hdevice hpath)).trans hdevice
  have hfirst : pathSeg path 0 2 = [⟨0, 2, false, false⟩] := by
    have hdot : letter ≠ 46 := by
      rintro rfl
      exact absurd hletter (by decide)
    unfold pathSeg
    simp only [hslice]
    simp [hdot]
  conv_lhs => rw [hpath]
  rw [pathGetSegmentsFrom, if_neg (by rw [isAlpha_notSeparator hletter]; exact Bool.false_ne_true), pathGetSegmentsFrom,
    if_neg (by rw [hcolon]; exact Bool.false_ne_true), pathGetSegmentsFrom, if_pos hsep]
  rw [hfirst]
  rfl

include hletter hsep hpath in
theorem pathRoot_device : pathRoot path .windows = (true, true, path) := by
  have hhead : ¬path.bytes.head?.any isSeparator = true := by
    rw [hpath, List.head?_cons, Option.any_some, isAlpha_notSeparator hletter]
    exact Bool.false_ne_true
  rw [pathRoot, if_neg hhead, if_pos]
  simp [hpath, hletter, hsep]

include hletter hsep hdevice hpath in
theorem pathInit_device (hinit : pathInit path .windows = some buffer) :
    buffer.type = .windows ∧ buffer.absolute = true ∧
    buffer.windowsDevicePath = true ∧ buffer.leadingDotDots = (pathWalk rest).ups - 1 ∧
    ((pathWalk rest).ups = 0 → ∃ more, buffer.segments = device :: more) ∧
    ((pathWalk rest).ups ≠ 0 → buffer.segments.head? = firstRetained path rest 3) := by
  have hbehind : pathInit path .windows = (pathGetSegments path).bind fun segments =>
      (copySegments path 0 (dropDotDots segments).2).bind
        fun names => some ⟨.windows, true, true, (dropDotDots segments).1, names⟩ := by
    rw [pathInit, pathRoot_device hletter hsep hpath]
    rfl
  rw [hbehind, Option.bind_eq_some_iff] at hinit
  obtain ⟨segments, hsegments, hinit⟩ := hinit
  obtain ⟨names, hcopy, hinit⟩ := Option.bind_eq_some_iff.mp hinit
  cases hinit
  simp only [pathGetSegments, Option.ite_none_left_eq_some, Option.some.injEq] at hsegments
  obtain ⟨-, rfl⟩ := hsegments
  have hlength : 3 + rest.bytes.length = path.bytes.length := by
    rw [hpath]
    simp only [List.length_cons]
    omega
  have hsegs := segAt_behind hlength (by rw [hpath]; rfl)
  have hups : (dropDotDots (pathGetSegmentsFrom path rest.bytes 3 3)).1 = (pathWalk rest).ups :=
    (dropDotDots_walk SegAt.toFlagsOf hsegs).1
  have hnames := copySegments_slices hcopy
  rw [pathGetSegmentsFrom_device hletter hsep hdevice hpath, dropDotDots_cons, hups] at hnames ⊢
  refine ⟨rfl, rfl, rfl, ?_, fun hzero => ?_, fun hpos => ?_⟩
  · simp only [Bool.false_eq_true, if_false]
    split_ifs
    · rfl
    · simp only
      omega
  · simp only [Bool.false_eq_true, if_false, hzero, Nat.lt_irrefl, gt_iff_lt] at hnames
    rw [List.map_cons, slice_device hdevice hpath] at hnames
    exact ⟨_, hnames⟩
  · simp only [Bool.false_eq_true, if_false, gt_iff_lt, Nat.pos_of_ne_zero hpos, if_true] at hnames
    simp only [hnames, List.head?_map, firstRetained]

include hletter hsep hdevice hpath in
/-- The device of a path is preserved unless a `..` leads out of the rest of the path, or there is one that does
and the same device again behind it. Up to 65535 bytes, that is the first name that the rest comes to. -/
theorem keepsDevice_pathInit_iff (hinit : pathInit path .windows = some buffer) :
    (KeepsDevice device buffer ↔
    (pathWalk rest).ups = 0 ∨ ((pathWalk rest).ups = 1 ∧ firstRetained path rest 3 = some device)) ∧
    (path.bytes.length < 2 ^ 16 → firstRetained path rest 3 = (pathWalk rest).names.head?) := by
  have hlength : 3 + rest.bytes.length = path.bytes.length := by
    rw [hpath]
    simp only [List.length_cons]
    omega
  refine ⟨?_, fun hlen => firstRetained_eq hlen hlength (by rw [hpath]; rfl)⟩
  obtain ⟨htype, habsolute, hflag, hdots, hzero, hpos⟩ := pathInit_device hletter hsep hdevice hpath hinit
  rw [keepsDevice_iff htype habsolute]
  constructor
  · intro h
    by_cases hups : (pathWalk rest).ups = 0
    · exact .inl hups
    · have hone := hdots.symm.trans h.leadingDotDots
      exact .inr ⟨by omega, (hpos hups).symm.trans h.first⟩
  · rintro (hups | ⟨hups, hagain⟩)
    · exact onDevice_iff.mpr ⟨hflag, by omega, hzero hups⟩
    · have hne : (pathWalk rest).ups ≠ 0 := by omega
      exact onDevice_iff.mpr ⟨hflag, by omega, List.head?_eq_some_iff.mp ((hpos hne).trans hagain)⟩

end Device

/-- `C:\a\..\b`: the device is preserved. -/
theorem keepsDevice_program : KeepsDevice (.lit "C:") ⟨.windows, true, true, 0, [.lit "C:", .lit "b"]⟩ := by
  have hletter : isAlpha 67 = true := by decide
  have hsep : isSeparator 92 = true := by decide
  have hdevice : (CString.lit "C:").bytes = [67, 58] := by decide
  have hpath : (CString.lit "C:\\a\\..\\b").bytes = 67 :: 58 :: 92 :: (CString.lit "a\\..\\b").bytes := by decide
  exact (keepsDevice_pathInit_iff hletter hsep hdevice hpath (by decide)).1.mpr (.inl (by decide))

/-- `C:\..`: the device is dropped. -/
theorem pathInit_drops_device : pathInit (.lit "C:\\..") .windows = some ⟨.windows, true, true, 0, []⟩ ∧
    pathFormat ⟨.windows, true, true, 0, []⟩ = some (.lit "") ∧ ¬KeepsDevice
    (.lit "C:") ⟨.windows, true, true, 0, []⟩ := by
  have hnone : ([] : List CString).head? ≠ some (.lit "C:") := nofun
  exact ⟨by decide, by decide, fun h => hnone (h.run _ .start).first⟩

end Tundra
