import Tundra.PathUtil.NormalForm
import Tundra.Scanner.Closure

/-!
# Concatenation

A path goes on where another one ends: the walks one after another. `PathConcat` works on what `PathInit` has
stored and stays at the root where the `..` of the other path would lead out of an absolute path. `PathInit`
keeps these `..`, so that a path that is written out may have a name that concatenation does not give.
-/

namespace Tundra

/-- A path that is written out: `a + '/' + b`. -/
def joinPaths (a b : CString) : CString := a ++ PathType.unix.separator ++ b

/-- A path that does not start at the root. -/
def IsRelative (path : CString) : Prop := path.bytes.head? ≠ some 47

/-- A walk from the root or from the current directory. -/
def unixBuffer (absolute : Bool) (walk : Walk CString) : PathBuffer := ⟨.unix, absolute, false, walk.ups, walk.names⟩

variable {a b c : CString}

@[simp] theorem unixBuffer_segments (absolute : Bool) (walk : Walk CString) :
    (unixBuffer absolute walk).segments = walk.names := rfl

theorem bytes_joinPaths (a b : CString) : (joinPaths a b).bytes = a.bytes ++ 47 :: b.bytes := by
  rw [joinPaths, CString.bytes_append, CString.bytes_append, List.append_assoc]
  rfl

theorem head_joinPaths (ha : a.bytes ≠ []) : (joinPaths a b).bytes.head? = a.bytes.head? := by
  obtain ⟨ch, rest, hbytes⟩ := List.exists_cons_of_ne_nil ha
  rw [bytes_joinPaths, hbytes]
  rfl

theorem length_joinPaths (a b : CString) : (joinPaths a b).bytes.length = a.bytes.length + b.bytes.length + 1 := by
  rw [bytes_joinPaths, List.length_append, List.length_cons]
  omega

theorem pathNames_joinPaths (a b : CString) : pathNames (joinPaths a b) = pathNames a ++ pathNames b := by
  have hsep : isSeparator 47 = true := by decide
  rw [pathNames, bytes_joinPaths, List.splitOnP_append_cons _ _ hsep, pieceNames_append, pathNames, pathNames]

theorem pathWalk_joinPaths (a b : CString) : pathWalk (joinPaths a b) = pathWalk a * pathWalk b := by
  rw [pathWalk, pathNames_joinPaths, List.filterMap_append, Walk.ofSteps_append, pathWalk, pathWalk]

theorem pathInit_unix {path : CString} (hlength : path.bytes.length < 2 ^ 16) {buffer : PathBuffer}
    (h : pathInit path .unix = some buffer) :
    buffer = unixBuffer (path.bytes.head? = some 47) (pathWalk path) := by
  rw [pathInit_eq hlength, Option.ite_none_right_eq_some, Option.some.injEq] at h
  obtain ⟨-, rfl⟩ := h
  rw [unixBuffer, (pathRoot_unix_eq path).1, (pathRoot_unix_eq path).2]

theorem unixBuffer_injective {absolute : Bool} {v w : Walk CString}
    (h : unixBuffer absolute v = unixBuffer absolute w) : v = w := by
  simp only [unixBuffer, PathBuffer.mk.injEq, true_and] at h
  exact Walk.ext h.1 h.2

/-! ### Buffers -/

/-- Without a device, every `..` throws a segment away as long as there is one. -/
theorem throwAway_zero (n segCount leadingDotDots : Nat) :
    throwAway 0 n (segCount, leadingDotDots) = (segCount - n, leadingDotDots + (n - segCount)) := by
  induction n generalizing segCount leadingDotDots with
  | zero => simp [throwAway]
  | succ n ih =>
      rw [throwAway]
      split_ifs with hpos hzero
      · rw [ih]
        congr 1 <;> omega
      · rw [ih]
        congr 1 <;> omega
      · omega

/-- `PathConcat` goes on with the other walk, and does not leave the root. -/
theorem pathConcat_unixBuffer {absolute : Bool} {v w : Walk CString} {result : PathBuffer}
    (h : pathConcat (unixBuffer absolute v) (unixBuffer false w) = some result) :
    result = unixBuffer absolute (if absolute then (v * w).atRoot else v * w) := by
  have hconcat : pathConcat (unixBuffer absolute v) (unixBuffer false w) =
    pathConcatImpl (unixBuffer absolute v) (unixBuffer false w) := rfl
  rw [hconcat, pathConcatImpl] at h
  have hthrow : throwAway (unixBuffer absolute v).minSegCount w.ups (v.names.length, v.ups) =
      (v.names.length - w.ups, v.ups + (w.ups - v.names.length)) := throwAway_zero _ _ _
  simp only [unixBuffer] at h hthrow
  simp only [hthrow, Option.ite_none_right_eq_some, Option.some.injEq] at h
  obtain ⟨-, rfl⟩ := h
  cases absolute
  · rfl
  · rfl

theorem pathConcat_pathInit (ha : a.bytes.length < 2 ^ 16) (hb : b.bytes.length < 2 ^ 16) (hrelative : IsRelative b)
    {bufferA bufferB result : PathBuffer} (hinitA : pathInit a .unix = some bufferA)
    (hinitB : pathInit b .unix = some bufferB) (h : pathConcat bufferA bufferB = some result) :
    result = unixBuffer (decide (a.bytes.head? = some 47))
      (if decide (a.bytes.head? = some 47) then (pathWalk a * pathWalk b).atRoot else pathWalk a * pathWalk b) := by
  rw [pathInit_unix ha hinitA, pathInit_unix hb hinitB, decide_eq_false hrelative] at h
  exact pathConcat_unixBuffer h

/-! ### Names -/

theorem PathBuffer.eq_of_text {path : CString} {buffer other : PathBuffer} (hnamed : buffer.Named)
    (hother : other.Named) (htype : buffer.type = other.type) (hdevice : buffer.windowsDevicePath = false)
    (hdevice' : other.windowsDevicePath = false) (htext : path.bytes = buffer.text)
    (htext' : path.bytes = other.text) : buffer = other := by
  have hwalk := (pathWalk_text hnamed htext).symm.trans (pathWalk_text hother htext')
  have habsolute := head_text hnamed hdevice
  have habsolute' := head_text hother hdevice'
  rw [← htext] at habsolute
  rw [← htext', habsolute] at habsolute'
  rw [Walk.mk.injEq] at hwalk
  cases buffer
  cases other
  simp only [PathBuffer.mk.injEq] at *
  exact ⟨htype, habsolute', hdevice.trans hdevice'.symm, hwalk⟩

theorem named_mul {absolute : Bool} {v w : Walk CString} (hv : ∀ name ∈ v.names, IsName name)
    (hw : ∀ name ∈ w.names, IsName name) :
    (unixBuffer absolute (v * w)).Named := by
  intro name hname
  rcases List.mem_append.mp hname with hname | hname
  · exact hv name (List.mem_of_mem_take hname)
  · exact hw name hname

/-- The name of a path that concatenation gives, and the name of the path that is written out. -/
theorem pathConcat_name_iff {absolute : Bool} {v w : Walk CString} (hv : ∀ name ∈ v.names, IsName name)
    (hw : ∀ name ∈ w.names, IsName name) {name joinedName : CString}
    (hname : pathFormat (unixBuffer absolute (if absolute then (v * w).atRoot else v * w)) = some name)
    (hjoined : pathFormat (unixBuffer absolute (v * w)) = some joinedName) :
    name = joinedName ↔ absolute = false ∨ (v * w).ups = 0 := by
  cases absolute with
  | false =>
      refine iff_of_true ?_ (.inl rfl)
      exact Option.some.inj (hname.symm.trans hjoined)
  | true =>
      simp only [if_true] at hname
      simp only [Bool.true_eq_false, false_or]
      rw [← Walk.atRoot_eq_self_iff]
      constructor
      · rintro rfl
        have hnamed : (unixBuffer true (v * w)).Named := named_mul hv hw
        have hnamed' : (unixBuffer true (v * w).atRoot).Named := hnamed
        exact unixBuffer_injective
          (PathBuffer.eq_of_text hnamed' hnamed rfl rfl rfl (pathFormat_text hname) (pathFormat_text hjoined))
      · intro hups
        rw [hups] at hname
        exact Option.some.inj (hname.symm.trans hjoined)

theorem pathConcat_assoc {absolute : Bool} {u v w : Walk CString} {buffer rest left right : PathBuffer}
    (hbuffer : pathConcat (unixBuffer absolute u) (unixBuffer false v) = some buffer)
    (hleft : pathConcat buffer (unixBuffer false w) = some left)
    (hrest : pathConcat (unixBuffer false v) (unixBuffer false w) = some rest)
    (hright : pathConcat (unixBuffer absolute u) rest = some right) : left = right := by
  obtain rfl := pathConcat_unixBuffer hbuffer
  obtain rfl := pathConcat_unixBuffer hrest
  obtain rfl := pathConcat_unixBuffer hleft
  obtain rfl := pathConcat_unixBuffer hright
  cases absolute with
  | false =>
      simp only [Bool.false_eq_true, if_false]
      rw [mul_assoc]
  | true =>
      simp only [if_true, Bool.false_eq_true, if_false]
      rw [Walk.atRoot_mul, mul_assoc]

/-! ### Include files -/

theorem pathStripLast_joinPaths (ha : a.bytes ≠ []) {leaf : CString} (hleaf : IsName leaf)
    (hlength : (joinPaths a leaf).bytes.length < 2 ^ 16) {buffer : PathBuffer}
    (h : pathInit (joinPaths a leaf) .unix = some buffer) :
    (pathStripLast buffer).2 = unixBuffer (a.bytes.head? = some 47) (pathWalk a) := by
  rw [pathInit_unix hlength h, head_joinPaths ha, pathWalk_joinPaths, pathWalk_leaf hleaf]
  have hmul : pathWalk a * ⟨0, [leaf]⟩ = ⟨(pathWalk a).ups, (pathWalk a).names ++ [leaf]⟩ := by
    refine Walk.ext ?_ ?_
    · rw [Walk.mul_ups]
      simp
    · rw [Walk.mul_names]
      simp
  rw [hmul, pathStripLast, if_pos (by simp [unixBuffer, PathBuffer.minSegCount])]
  simp [unixBuffer]

/-- A directive of a file is searched in one directory, which is on the include path or where the file is. -/
def SearchesOnly (a : CString) (includePaths : List CString) (filename : CString) (inc : IncludeData) : Prop :=
  (∀ dir ∈ includePaths, dir = a) ∧
    (inc.isSystemInclude = true ∨ ∃ leaf, IsName leaf ∧ filename = joinPaths a leaf ∧ filename.bytes.length < 2 ^ 16)

/-- A file that is found in a directory has the name that concatenation gives. -/
theorem findFile_eq (ha : a.bytes ≠ []) (hlength : a.bytes.length < 2 ^ 16) {bufferA bufferB buffer : PathBuffer}
    (hinitA : pathInit a .unix = some bufferA) (hinitB : pathInit b .unix = some bufferB)
    (hconcat : pathConcat bufferA bufferB = some buffer) {name : CString} (hname : pathFormat buffer = some name)
    {fs : FileSystem} {includePaths : List CString} {filename found : CString} {inc : IncludeData}
    (hinc : inc.string = b) (hsearch : SearchesOnly a includePaths filename inc)
    (h : findFile fs includePaths filename inc = some (some found)) : found = name := by
  obtain ⟨filenameBuf, hfilename, hfind⟩ := Option.bind_eq_some_iff.mp h
  obtain ⟨includeBuf, hinclude, hfind⟩ := Option.bind_eq_some_iff.mp hfind
  rw [hinc, hinitB, Option.some.injEq] at hinclude
  subst hinclude
  have hcandidate : candidate (some bufferA) bufferB = some name := by
    rw [candidate, Option.bind_some, hconcat, Option.bind_some, hname]
  rcases List.mem_append.mp (firstExisting_mem hfind) with hmem | hmem
  · rcases hsearch.2 with hsystem | ⟨leaf, hleaf, rfl, hshort⟩
    · rw [if_pos hsystem] at hmem
      cases hmem
    · split_ifs at hmem
      · cases hmem
      · rw [List.mem_singleton, pathStripLast_joinPaths ha hleaf hshort hfilename, ← pathInit_unix hlength hinitA,
          hcandidate] at hmem
        exact Option.some.inj hmem
  · obtain ⟨dir, hdir, hfound⟩ := List.mem_map.mp hmem
    rw [hsearch.1 dir hdir, hinitA, hcandidate] at hfound
    exact (Option.some.inj hfound).symm

/-! ### Paths that are written out -/

/-- Concatenation of two paths gives the name of the path that is written out, and it does not matter in which
order paths are put together. -/
structure Concatenates (a b : CString) (bufferA bufferB buffer : PathBuffer) (name joinedName : CString) : Prop where
  name_eq : name = joinedName
  assoc : ∀ {c : CString} {bufferC rest left right : PathBuffer}, c.bytes.length < 2 ^ 16 → IsRelative c →
    pathInit c .unix = some bufferC →
    pathConcat buffer bufferC = some left → pathConcat bufferB bufferC = some rest →
      pathConcat bufferA rest = some right → left = right
  findFile_eq : ∀ {fs : FileSystem} {includePaths : List CString} {filename found : CString} {inc : IncludeData},
    inc.string = b →
    SearchesOnly a includePaths filename inc → findFile fs includePaths filename inc = some (some found) →
      found = joinedName

/-- Concatenation gives the names of the paths that are written out except where the `..` lead out of an
absolute path. -/
theorem pathConcat_joinPaths_iff (ha : a.bytes ≠ []) (hb : IsRelative b)
    (hlength : (joinPaths a b).bytes.length < 2 ^ 16) {bufferA bufferB buffer : PathBuffer}
    (hinitA : pathInit a .unix = some bufferA) (hinitB : pathInit b .unix = some bufferB)
    (hconcat : pathConcat bufferA bufferB = some buffer) {name joinedName : CString}
    (hname : pathFormat buffer = some name) (hjoined : pathNormalize (joinPaths a b) .unix = some joinedName) :
    Concatenates a b bufferA bufferB buffer name joinedName ↔ IsRelative a ∨ (pathWalk (joinPaths a b)).ups = 0 := by
  have hlengths := length_joinPaths a b
  have hlengthA : a.bytes.length < 2 ^ 16 := by omega
  have hlengthB : b.bytes.length < 2 ^ 16 := by omega
  have hnames : name = joinedName ↔ IsRelative a ∨ (pathWalk (joinPaths a b)).ups = 0 := by
    obtain ⟨joined, hinit, hformat⟩ := Option.bind_eq_some_iff.mp hjoined
    rw [pathInit_unix hlength hinit, head_joinPaths ha, pathWalk_joinPaths] at hformat
    rw [pathConcat_pathInit hlengthA hlengthB hb hinitA hinitB hconcat] at hname
    rw [pathConcat_name_iff (fun _ => isName_pathWalk) (fun _ => isName_pathWalk) hname hformat, pathWalk_joinPaths,
      decide_eq_false_iff_not]
    rfl
  constructor
  · intro h
    exact hnames.mp h.name_eq
  · intro h
    obtain rfl := hnames.mpr h
    refine ⟨rfl, fun hlengthC hc hinitC hleft hrest hright => ?_, fun hinc hsearch hfind => ?_⟩
    · rw [pathInit_unix hlengthA hinitA, pathInit_unix hlengthB hinitB, decide_eq_false hb] at hconcat
      rw [pathInit_unix hlengthC hinitC, decide_eq_false hc] at hleft hrest
      rw [pathInit_unix hlengthB hinitB, decide_eq_false hb] at hrest
      rw [pathInit_unix hlengthA hinitA] at hright
      exact pathConcat_assoc hconcat hleft hrest hright
    · exact findFile_eq ha hlengthA hinitA hinitB hconcat hname hinc hsearch hfind

theorem pathConcat_joinPaths_program : Concatenates (.lit "a/b")
    (.lit "../../../c") ⟨.unix, false, false, 0, [.lit "a", .lit "b"]⟩
    ⟨.unix, false, false, 3, [.lit "c"]⟩ ⟨.unix, false, false, 1, [.lit "c"]⟩ (.lit "../c") (.lit "../c") := by
  have hrelative : ∀ path ∈ [CString.lit "a/b", .lit "../../../c"], path.bytes.head? ≠ some 47 := by decide
  exact (pathConcat_joinPaths_iff (by decide) (hrelative _ (by decide)) (by decide) (by decide) (by decide)
    (by decide) (by decide)
    (by decide)).mpr (.inl (hrelative _ (by decide)))

/-- `/bar` and `../../foo.c`: concatenation stays at the root, but the path that is written out does not. -/
theorem pathConcat_stays_at_root : ∃ bufferA bufferB buffer name joinedName, pathInit
    (.lit "/bar") .unix = some bufferA ∧
    pathInit (.lit "../../foo.c") .unix = some bufferB ∧ pathConcat bufferA bufferB = some buffer ∧
    pathFormat buffer = some name ∧
    pathNormalize (joinPaths (.lit "/bar") (.lit "../../foo.c")) .unix = some joinedName ∧
    name = .lit "/foo.c" ∧ joinedName = .lit "/../foo.c" ∧
    ¬Concatenates (.lit "/bar") (.lit "../../foo.c") bufferA bufferB buffer name joinedName := by
  have hdiffer : CString.lit "/foo.c" ≠ .lit "/../foo.c" := by decide
  exact ⟨⟨.unix, true, false, 0, [.lit "bar"]⟩, ⟨.unix, false, false, 2, [.lit "foo.c"]⟩,
    ⟨.unix, true, false, 0, [.lit "foo.c"]⟩, .lit "/foo.c",
    .lit "/../foo.c", by decide, by decide, by decide, by decide, by decide, rfl, rfl, fun h => hdiffer h.name_eq⟩

end Tundra
