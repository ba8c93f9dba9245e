import Tundra.PathUtil

/-!
# The directories above a path

`PathStripLast` takes the last segment off a path. Done again and again it leads through the directories above
the path, as long as there are segments left. Such a directory has a shorter name than the path, whatever form
the path was given in, since what `PathInit` leaves of a path is no longer than the path.
-/

namespace Tundra

/-- The first of the two is the name of a directory above the path, which is not the root and not a row of `..`. -/
def IsAncestor (dir path : CString) : Prop :=
  ∃ buffer k, pathInit path .unix = some buffer ∧ 0 < k ∧ k < buffer.segments.length ∧
    pathFormat { buffer with segments := buffer.segments.take k } = some dir

/-- The path is as `PathFormat` writes it. -/
def NormalForm (path : CString) : Prop := ∃ buffer, pathInit path .unix = some buffer ∧ pathFormat buffer = some path

/-! ### Taking a path apart -/

/-- The bytes of segments with a separator behind each. -/
def segmentsSize (segments : List PathSeg) : Nat := (segments.map fun seg => seg.len + 1).sum

/-- The bytes of names with a separator behind each. -/
def namesSize (names : List CString) : Nat := (names.map fun name => name.bytes.length + 1).sum

theorem segmentsSize_append (l r : List PathSeg) :
    segmentsSize (l ++ r) = segmentsSize l + segmentsSize r := by simp [segmentsSize]

theorem namesSize_append (l r : List CString) : namesSize (l ++ r) = namesSize l + namesSize r := by simp [namesSize]

theorem segmentsSize_pathSeg (path : CString) (last pos : Nat) :
    segmentsSize (pathSeg path last pos) ≤ pos - last + 1 := by
  unfold pathSeg
  split_ifs
  · exact Nat.zero_le _
  · simp only [segmentsSize, List.map_cons, List.map_nil, List.sum_cons, List.sum_nil]
    have := Nat.mod_le (pos - last) (2 ^ 16)
    omega

theorem len_of_mem_pathSeg {path : CString} {last pos : Nat} (hpos : pos ≤ path.bytes.length) {seg : PathSeg}
    (h : seg ∈ pathSeg path last pos) (hdotdot : seg.dotdot = true) : seg.len = 2 := by
  unfold pathSeg at h
  split_ifs at h with hempty
  · cases h
  · rw [List.mem_singleton.mp h] at hdotdot ⊢
    have hlength := congrArg List.length (of_decide_eq_true hdotdot)
    simp only [CString.slice, List.length_take, List.length_drop, List.length_cons, List.length_nil] at hlength
    simp only
    omega

theorem pathGetSegmentsFrom_spec (path : CString) {rest : List UInt8} :
    ∀ {last pos : Nat}, last ≤ pos → pos + rest.length ≤ path.bytes.length →
    segmentsSize (pathGetSegmentsFrom path rest last pos) + last ≤ pos + rest.length + 1 ∧
      ∀ seg ∈ pathGetSegmentsFrom path rest last pos, seg.dotdot = true → seg.len = 2 := by
  induction rest with
  | nil =>
      intro last pos hlast hpos
      have hsize := segmentsSize_pathSeg path last pos
      simp only [pathGetSegmentsFrom, List.length_nil] at hpos ⊢
      exact ⟨by omega, fun seg => len_of_mem_pathSeg (by omega)⟩
  | cons ch rest ih =>
      intro last pos hlast hpos
      simp only [List.length_cons] at hpos ⊢
      rw [pathGetSegmentsFrom]
      split_ifs
      · obtain ⟨hsize, hlen⟩ := ih (Nat.le_refl (pos + 1)) (by omega)
        have hfirst := segmentsSize_pathSeg path last pos
        refine ⟨by rw [segmentsSize_append]; omega, fun seg hseg => ?_⟩
        rcases List.mem_append.mp hseg with hseg | hseg
        · exact len_of_mem_pathSeg (by omega) hseg
        · exact hlen seg hseg
      · obtain ⟨hsize, hlen⟩ := ih (show last ≤ pos + 1 by omega) (by omega)
        exact ⟨by omega, hlen⟩

/-- Dropping segments makes a path no longer; each `..` that is left takes three bytes. -/
theorem dropDotDots_size {segments : List PathSeg} (h : ∀ seg ∈ segments, seg.dotdot = true → seg.len = 2) :
    3 * (dropDotDots segments).1 + segmentsSize (dropDotDots segments).2 ≤ segmentsSize segments := by
  induction segments with
  | nil => exact Nat.le_refl 0
  | cons seg segments ih =>
      have hrest := ih fun seg hseg => h seg (List.mem_cons_of_mem _ hseg)
      have hlen := h seg List.mem_cons_self
      have hcons : ∀ l, segmentsSize (seg :: l) = seg.len + 1 + segmentsSize l := fun l => by simp [segmentsSize]
      simp only [dropDotDots, List.foldr_cons] at hrest ⊢
      rw [hcons]
      split_ifs with hdrop hdotdot hdrops
      · simp only
        omega
      · simp only [hlen hdotdot]
        omega
      · simp only
        omega
      · simp only [hcons]
        omega

theorem copySegments_size {path : CString} {segments : List PathSeg} : ∀ {outputPos : Nat} {names : List CString},
    copySegments path outputPos segments = some names → namesSize names ≤ segmentsSize segments := by
  induction segments with
  | nil =>
      intro outputPos names h
      cases h
      exact Nat.le_refl 0
  | cons seg segments ih =>
      intro outputPos names h
      rw [copySegments, Option.ite_none_left_eq_some, Option.map_eq_some_iff] at h
      obtain ⟨-, rest, hrest, rfl⟩ := h
      have hsize := ih hrest
      have hslice : (path.slice seg.offset seg.len).bytes.length ≤ seg.len := List.length_take_le _ _
      simp only [namesSize, segmentsSize, List.map_cons, List.sum_cons] at hsize ⊢
      omega

theorem pathRoot_unix {path rest : CString} {absolute device : Bool}
    (h : pathRoot path .unix = (absolute, device, rest)) :
    device = false ∧ (if absolute then 1 else 0) + rest.bytes.length = path.bytes.length := by
  by_cases hslash : path.bytes.head? = some 47
  · simp only [pathRoot, hslash, if_true, Prod.mk.injEq] at h
    obtain ⟨rfl, rfl, rfl⟩ := h
    refine ⟨rfl, ?_⟩
    obtain ⟨rest, hrest⟩ := List.head?_eq_some_iff.mp hslash
    simp only [CString.slice, hrest, List.drop_one, List.tail_cons, List.length_cons, List.length_take, if_true]
    omega
  · simp only [pathRoot, hslash, if_false, Prod.mk.injEq] at h
    obtain ⟨rfl, rfl, rfl⟩ := h
    exact ⟨rfl, Nat.zero_add _⟩

/-- What is left of a path is no longer than the path, counted with a separator behind each segment. -/
theorem pathInit_size {path : CString} {buffer : PathBuffer} (h : pathInit path .unix = some buffer) :
    buffer.type = .unix ∧ buffer.windowsDevicePath = false ∧
      (if buffer.absolute then 1 else 0) + 3 * buffer.leadingDotDots + namesSize buffer.segments ≤ path.bytes.length +
      1 := by
  rcases hroot : pathRoot path .unix with ⟨absolute, device, rest⟩
  obtain ⟨rfl, hrest⟩ := pathRoot_unix hroot
  simp only [pathInit, hroot, Option.bind_eq_bind, Option.bind_eq_some_iff, Option.pure_def, Option.some.injEq] at h
  obtain ⟨segments, hsegments, names, hnames, rfl⟩ := h
  simp only [pathGetSegments, Option.ite_none_left_eq_some, Option.some.injEq] at hsegments
  obtain ⟨-, rfl⟩ := hsegments
  obtain ⟨hsize, hlen⟩ := pathGetSegmentsFrom_spec rest (Nat.le_refl 0) (Nat.le_of_eq (Nat.zero_add _))
  have hdrop := dropDotDots_size hlen
  rcases hkept : dropDotDots (pathGetSegmentsFrom rest rest.bytes 0 0) with ⟨drops, kept⟩
  rw [hkept] at hdrop hnames
  have hcopy := copySegments_size hnames
  refine ⟨rfl, rfl, ?_⟩
  simp only at hdrop hcopy ⊢
  omega

/-! ### Putting a path together -/

theorem length_formatSegments {sep output result : CString} {segments : List CString} (hsep : sep.bytes.length = 1)
    (h : formatSegments sep output true segments = some result) :
    result.bytes.length = output.bytes.length + namesSize segments := by
  induction segments generalizing output with
  | nil =>
      cases h
      rfl
  | cons seg segments ih =>
      rw [formatSegments, Option.ite_none_left_eq_some] at h
      rw [ih h.2]
      simp only [if_true, CString.bytes_append, List.length_append, hsep, namesSize, List.map_cons, List.sum_cons]
      omega

theorem length_pathFormat {buffer : PathBuffer} {path : CString} (htype : buffer.type = .unix)
    (hdevice : buffer.windowsDevicePath = false) (hne : buffer.segments ≠ []) (h : pathFormat buffer = some path) :
    path.bytes.length + 1 = (if buffer.absolute then 1 else 0) + 3 * buffer.leadingDotDots +
    namesSize buffer.segments := by
  obtain ⟨seg, segments, hsegments⟩ := List.exists_cons_of_ne_nil hne
  have hsep : (PathType.separator .unix).bytes.length = 1 := rfl
  simp only [pathFormat, hsegments, htype, hdevice, formatSegments, Option.ite_none_left_eq_some, Bool.not_false,
    Bool.and_true] at h
  rw [length_formatSegments hsep h.2, hsegments]
  simp only [CString.bytes_append, List.length_append, length_dotDots, hsep, namesSize, List.map_cons, List.sum_cons,
    Bool.false_eq_true,
    if_false]
  have hroot : (if buffer.absolute = true then PathType.separator .unix else CString.empty).bytes.length =
    if buffer.absolute then 1 else 0 := by
    split_ifs <;> rfl
  rw [hroot]
  have hempty : CString.empty.bytes.length = 0 := rfl
  omega

theorem formatSegments_prefix {sep output result : CString} {more : Bool} {front back : List CString}
    (h : formatSegments sep output more (front ++ back) = some result) :
    ∃ shorter, formatSegments sep output more front = some shorter := by
  induction front generalizing output more with
  | nil => exact ⟨output, rfl⟩
  | cons seg front ih =>
      rw [List.cons_append, formatSegments, Option.ite_none_left_eq_some] at h
      rw [formatSegments, if_neg h.1]
      exact ih h.2

/-- Where a path can be written, so can the directories above it. -/
theorem pathFormat_take {buffer : PathBuffer} {path : CString} (h : pathFormat buffer = some path) (k : Nat) :
    ∃ dir, pathFormat { buffer with segments := buffer.segments.take k } = some dir := by
  apply formatSegments_prefix
  rw [List.take_append_drop]
  exact h

theorem namesSize_take_lt {names : List CString} {k : Nat} (hk : k < names.length) :
    namesSize (names.take k) < namesSize names := by
  have hsplit : namesSize names = namesSize (names.take k) + namesSize (names.drop k) := by
    rw [← namesSize_append, List.take_append_drop]
  rw [List.drop_eq_getElem_cons hk] at hsplit
  simp only [namesSize, List.map_cons, List.sum_cons] at hsplit ⊢
  omega

theorem IsAncestor.length_lt {dir path : CString} (h : IsAncestor dir path) : dir.bytes.length < path.bytes.length := by
  obtain ⟨buffer, k, hinit, hpos, hk, hformat⟩ := h
  obtain ⟨htype, hdevice, hsize⟩ := pathInit_size hinit
  have hne : buffer.segments.take k ≠ [] := by
    rw [ne_eq, List.take_eq_nil_iff, not_or]
    exact ⟨by omega, List.ne_nil_of_length_pos (by omega)⟩
  have hdir := @length_pathFormat { buffer with segments := buffer.segments.take k } dir htype hdevice hne hformat
  have hlt := namesSize_take_lt hk
  simp only at hdir
  omega

end Tundra
