import Tundra.PathUtil.Concat

/-!
# Paths in Lua

`LuaPath.cpp`: the functions of `tundra.native` that take paths apart and put them together. A suffix of a path
is formatted with `PathFormatPartial`, which puts the `..` that lead out of the whole path in front of it, and
the root in front of a path that has one segment.
-/

namespace Tundra

def pathFormatPartial (buffer : PathBuffer) (startSeg endSeg : Nat) : Option CString :=
  let sep := buffer.type.separator
  let root := if startSeg = 0 && (buffer.absolute && !buffer.windowsDevicePath) then sep else .empty
  let dotDots := (List.replicate buffer.leadingDotDots (dotDot ++ sep)).foldl (· ++ ·) root
  formatSegments sep dotDots false ((buffer.segments.drop startSeg).take (endSeg + 1 - startSeg))

def luaPathSplit (path : CString) : Option (CString × CString) :=
  (pathInit path .unix).bind fun pbuf =>
    if pbuf.segments.length > 1 then
      (pathFormatPartial pbuf 0 (pbuf.segments.length - 2)).bind fun dir =>
        (pathFormatPartial pbuf (pbuf.segments.length - 1) (pbuf.segments.length - 1)).map fun file => (dir, file)
    else (pathFormat pbuf).map fun file => (.lit ".", file)

def luaPathNormalize (path : CString) : Option CString := pathNormalize path .unix

def luaPathJoin (p1 p2 : CString) : Option CString :=
  (pathInit p1 .unix).bind fun buf => (pathInit p2 .unix).bind fun other => (pathConcat buf other).bind pathFormat

def luaPathGetFilename (path : CString) : Option CString :=
  (pathInit path .unix).bind fun pbuf =>
    if pbuf.segments.length > 0 then pathFormatPartial pbuf (pbuf.segments.length - 1) (pbuf.segments.length - 1)
      else some (.lit "")

/-- Splitting a path and joining its parts normalizes it, and its filename is its last segment. -/
structure SplitsAndJoins (path : CString) : Prop where
  join : ∃ dir file, luaPathSplit path = some (dir, file) ∧ luaPathJoin dir file = luaPathNormalize path
  filename : ∀ name, (pathWalk path).names.getLast? = some name →
    luaPathGetFilename path = some name ∧ ∀ ch ∈ name.bytes, isSeparator ch = false

variable {path : CString} {absolute : Bool} {ups : Nat} {init : List CString} {last : CString}

/-! ### Parts of a path -/

theorem pathFormatPartial_eq (buffer : PathBuffer) (startSeg endSeg : Nat) : pathFormatPartial buffer startSeg endSeg =
    pathFormat { buffer with
      absolute := startSeg = 0 && buffer.absolute
      segments := (buffer.segments.drop startSeg).take (endSeg + 1 - startSeg) } := by
  rw [pathFormatPartial, pathFormat, Bool.and_assoc]

theorem pathFormatPartial_init (absolute : Bool) (ups : Nat) {init : List CString} (hinit : init ≠ [])
    (last : CString) :
    pathFormatPartial (unixBuffer absolute ⟨ups, init ++ [last]⟩) 0 ((init ++ [last]).length - 2) = pathFormat
    (unixBuffer absolute ⟨ups, init⟩) := by
  have hlength := List.length_pos_iff.mpr hinit
  have htake : (init ++ [last]).length - 2 + 1 - 0 = init.length := by
    rw [List.length_append, List.length_singleton]
    omega
  rw [pathFormatPartial_eq, htake]
  simp [unixBuffer]

theorem pathFormatPartial_last (absolute : Bool) (ups : Nat) (init : List CString) (last : CString) :
    pathFormatPartial (unixBuffer absolute ⟨ups, init ++ [last]⟩) ((init ++ [last]).length - 1)
    ((init ++ [last]).length - 1) =
      pathFormat (unixBuffer (init = [] && absolute) ⟨ups, [last]⟩) := by
  have hstart : (init ++ [last]).length - 1 = init.length := by
    rw [List.length_append, List.length_singleton, Nat.add_sub_cancel]
  rw [pathFormatPartial_eq, hstart]
  simp [unixBuffer]

/-! ### Paths within the limits -/

/-- A path that fits into a buffer and into the text of `PathFormat`. -/
structure WithinLimits (absolute : Bool) (walk : Walk CString) : Prop where
  named : (unixBuffer absolute walk).Named
  count : walk.ups + walk.names.length ≤ kMaxPathSegments
  size : (if absolute then 1 else 0) + 3 * walk.ups + namesSize walk.names < kMaxPathLength

theorem bufferSize_le_namesSize (names : List CString) : bufferSize names ≤ namesSize names := by
  induction names with
  | nil => exact Nat.le_refl 0
  | cons name names ih =>
      simp only [bufferSize, namesSize, List.map_cons, List.sum_cons] at ih ⊢
      omega

theorem namesSize_sublist {l r : List CString} (h : l.Sublist r) : namesSize l ≤ namesSize r :=
  (h.map _).sum_le_sum fun _ _ => Nat.zero_le _

theorem pathInit_withinLimits (hcount : (pathNames path).length ≤ kMaxPathSegments)
    (hlength : path.bytes.length + 1 < kMaxPathLength) :
    pathInit path .unix = some (unixBuffer (path.bytes.head? = some 47) (pathWalk path)) ∧
      WithinLimits (path.bytes.head? = some 47) (pathWalk path) := by
  have hshort : path.bytes.length < 2 ^ 16 := by
    rw [kMaxPathLength] at hlength
    omega
  have hfits : CopyFits 0 (pathWalk path).names := copyFits_pathWalk (by omega)
  have hinit := pathInit_eq hshort .unix
  rw [if_pos ⟨hcount, hfits⟩] at hinit
  obtain ⟨-, -, hsize⟩ := pathInit_size hinit
  rw [(pathRoot_unix_eq path).1] at hsize
  refine ⟨?_, fun name hname => isName_pathWalk hname, (length_pathWalk path).trans hcount, ?_⟩
  · rw [hinit, (pathRoot_unix_eq path).1, (pathRoot_unix_eq path).2, unixBuffer]
  · simp only at hsize
    omega

theorem WithinLimits.part {absolute' : Bool} {walk : Walk CString} {names : List CString}
    (h : WithinLimits absolute walk) (habsolute : absolute' = true → absolute = true)
    (hnames : names.Sublist walk.names) : WithinLimits absolute' ⟨walk.ups, names⟩ := by
  have hsize := namesSize_sublist hnames
  have hlength := hnames.length_le
  have hcount := h.count
  have hlimit := h.size
  refine ⟨fun name hname => h.named name (hnames.subset hname), ?_, ?_⟩
  · simp only
    omega
  · have hroot : (if absolute' = true then 1 else 0) ≤ if absolute = true then 1 else 0 := by
      cases absolute' with
      | false => exact Nat.zero_le _
      | true => rw [habsolute rfl]
    simp only
    omega

/-- A path within the limits is formatted, and taking its text apart gives the same path. -/
theorem WithinLimits.format {walk : Walk CString} (h : WithinLimits absolute walk) :
    ∃ text, pathFormat (unixBuffer absolute walk) = some text ∧ pathInit text .unix = some
    (unixBuffer absolute walk) := by
  have hcount := h.count
  have hlimit := h.size
  have hfits : walk.names = [] ∨ (unixBuffer absolute walk).text.length + 1 < kMaxPathLength := by
    by_cases hne : walk.names = []
    · exact .inl hne
    · have htext : (unixBuffer absolute walk).text.length + 1 =
          (if absolute = true then 1 else 0) + 3 * walk.ups + namesSize walk.names := length_text rfl hne
      exact .inr (by omega)
  obtain ⟨text, htext⟩ : ∃ text, pathFormat (unixBuffer absolute walk) = some text := pathFormat_isSome hfits
  have hdots : (unixBuffer absolute walk).leadingDotDots ≤ 2 * kMaxPathSegments := by
    simp only [unixBuffer]
    omega
  have hlength : text.bytes.length < 2 ^ 16 := lt_of_lt_of_le (pathFormat_length hdots htext) (by decide)
  have hcopy : CopyFits 0 walk.names := by
    have hlast := bufferSize_sublist (List.dropLast_sublist walk.names)
    have hsize := bufferSize_le_namesSize walk.names
    exact .inr (by omega)
  exact ⟨text, htext, pathInit_text rfl rfl h.named hcount hcopy hlength (pathFormat_text htext)⟩

/-! ### Joining -/

/-- The parts of a path join to the path if no `..` leads out of it: these are in front of both parts. -/
theorem pathConcat_parts_iff (h : WithinLimits absolute ⟨ups, init ++ [last]⟩) (hinit : init ≠ []) :
    (pathConcat (unixBuffer absolute ⟨ups, init⟩) (unixBuffer false ⟨ups, [last]⟩)).bind pathFormat =
      pathFormat (unixBuffer absolute ⟨ups, init ++ [last]⟩) ↔ ups = 0 := by
  constructor
  · intro hjoin
    obtain ⟨text, htext, -⟩ := h.format
    rw [htext, Option.bind_eq_some_iff] at hjoin
    obtain ⟨result, hconcat, hresult⟩ := hjoin
    obtain rfl := pathConcat_unixBuffer hconcat
    have hnames : (if absolute then ((⟨ups, init⟩ : Walk CString) * ⟨ups, [last]⟩).atRoot
      else ⟨ups, init⟩ * ⟨ups, [last]⟩).names =
        init.take (init.length - ups) ++ [last] := by
      split_ifs <;> rfl
    have hnamed : (unixBuffer absolute (if absolute then ((⟨ups, init⟩ : Walk CString) * ⟨ups, [last]⟩).atRoot
        else ⟨ups, init⟩ * ⟨ups, [last]⟩)).Named := by
      intro name hname
      rw [unixBuffer] at hname
      simp only [hnames] at hname
      refine h.named name ?_
      rcases List.mem_append.mp hname with hname | hname
      · exact List.mem_append_left _ (List.mem_of_mem_take hname)
      · exact List.mem_append_right _ hname
    have hsame := unixBuffer_injective
      (PathBuffer.eq_of_text hnamed h.named rfl rfl rfl (pathFormat_text hresult) (pathFormat_text htext))
    rw [hsame] at hnames
    have hlength := congrArg List.length (List.append_cancel_right hnames)
    have hpos := List.length_pos_iff.mpr hinit
    rw [List.length_take] at hlength
    omega
  · rintro rfl
    have hcount := h.count
    have hsize := h.size
    have hbuffer := bufferSize_le_namesSize (init ++ [last])
    have hconcat : pathConcat (unixBuffer absolute ⟨0, init⟩) (unixBuffer false ⟨0, [last]⟩) =
        some (unixBuffer absolute ⟨0, init ++ [last]⟩) := by
      have hlimits : (init ++ [last]).length ≤ kMaxPathSegments ∧ bufferSize (init ++ [last]) ≤ kMaxPathLength := by
        simp only at hcount hsize
        omega
      simp only [pathConcat, pathConcatImpl, unixBuffer, throwAway, Bool.false_eq_true, if_false, List.take_length,
        hlimits, decide_true,
        Bool.and_self, if_true, ite_self]
    rw [hconcat]
    rfl

theorem luaPathJoin_eq {p1 p2 : CString} {buf other : PathBuffer} (hinit : pathInit p1 .unix = some buf)
    (hinit' : pathInit p2 .unix = some other) : luaPathJoin p1 p2 = (pathConcat buf other).bind pathFormat := by
  rw [luaPathJoin, hinit, Option.bind_some, hinit', Option.bind_some]

theorem pathConcat_dot {walk : Walk CString} (h : WithinLimits absolute walk) :
    pathConcat (unixBuffer false 1) (unixBuffer absolute walk) = some (unixBuffer absolute walk) := by
  cases absolute with
  | true => rfl
  | false =>
      have hcount := h.count
      have hsize := h.size
      have hbuffer := bufferSize_le_namesSize walk.names
      have hlimits : walk.names.length ≤ kMaxPathSegments ∧ bufferSize walk.names ≤ kMaxPathLength := by omega
      have hthrow : throwAway 0 walk.ups (0, 0) = (0, walk.ups) := by
        rw [throwAway_zero]
        simp
      simp only [pathConcat, pathConcatImpl, unixBuffer, PathBuffer.minSegCount, Bool.false_eq_true, if_false,
        Walk.one_names, Walk.one_ups,
        List.length_nil, hthrow, List.take_nil, List.nil_append, hlimits, decide_true, Bool.and_self, if_true]

theorem luaPathJoin_single {walk : Walk CString} (hinit : pathInit path .unix = some (unixBuffer absolute walk))
    (h : WithinLimits absolute walk) (hsingle : walk.names.length ≤ 1) :
    ∃ dir file, luaPathSplit path = some (dir, file) ∧ luaPathJoin dir file = luaPathNormalize path := by
  obtain ⟨text, htext, htextInit⟩ := h.format
  have hdot : pathInit (.lit ".") .unix = some (unixBuffer false 1) := by decide
  refine ⟨.lit ".", text, ?_, ?_⟩
  · rw [luaPathSplit, hinit, Option.bind_some, unixBuffer_segments, if_neg (Nat.not_lt.mpr hsingle), htext,
      Option.map_some]
  · rw [luaPathJoin_eq hdot htextInit, pathConcat_dot h, luaPathNormalize, pathNormalize, hinit]

/-- A path with more segments is joined from its parts if no `..` leads out of it. -/
theorem luaPathJoin_iff (hpath : pathInit path .unix = some (unixBuffer absolute ⟨ups, init ++ [last]⟩))
    (h : WithinLimits absolute ⟨ups, init ++ [last]⟩) (hinit : init ≠ []) :
    (∃ dir file, luaPathSplit path = some (dir, file) ∧ luaPathJoin dir file = luaPathNormalize path) ↔ ups = 0 := by
  have hdirLimits : WithinLimits absolute ⟨ups, init⟩ := h.part id (List.sublist_append_left _ _)
  have hfileLimits : WithinLimits false ⟨ups, [last]⟩ := h.part nofun (List.sublist_append_right _ _)
  obtain ⟨dir, hdir, hdirInit⟩ := hdirLimits.format
  obtain ⟨file, hfile, hfileInit⟩ := hfileLimits.format
  have hmany : (init ++ [last]).length > 1 := by
    have hpos := List.length_pos_iff.mpr hinit
    rw [List.length_append, List.length_singleton]
    omega
  have hlast := pathFormatPartial_last absolute ups init last
  rw [decide_eq_false hinit, Bool.false_and, hfile] at hlast
  have hsplit : luaPathSplit path = some (dir, file) := by
    rw [luaPathSplit, hpath, Option.bind_some, unixBuffer_segments, if_pos hmany,
      pathFormatPartial_init absolute ups hinit last, hdir,
      Option.bind_some, hlast, Option.map_some]
  have hjoin : luaPathJoin dir file = luaPathNormalize path ↔ ups = 0 := by
    rw [luaPathJoin_eq hdirInit hfileInit, luaPathNormalize, pathNormalize, hpath, Option.bind_some]
    exact pathConcat_parts_iff h hinit
  rw [← hjoin]
  constructor
  · rintro ⟨dir', file', hsplit', hjoin'⟩
    rw [hsplit, Option.some.injEq, Prod.mk.injEq] at hsplit'
    obtain ⟨rfl, rfl⟩ := hsplit'
    exact hjoin'
  · intro hjoin'
    exact ⟨dir, file, hsplit, hjoin'⟩

/-- The filename of a path is its last segment if there is nothing in front of it: no `..`, and no root where it
is the only segment. -/
theorem luaPathGetFilename_iff (hpath : pathInit path .unix = some (unixBuffer absolute ⟨ups, init ++ [last]⟩))
    (h : WithinLimits absolute ⟨ups, init ++ [last]⟩) :
    luaPathGetFilename path = some last ↔ ups = 0 ∧ ¬(absolute = true ∧ init = []) := by
  have hpos : (init ++ [last]).length > 0 := by
    rw [List.length_append, List.length_singleton]
    exact Nat.succ_pos _
  have hlimits : WithinLimits (init = [] && absolute) ⟨ups, [last]⟩ :=
    h.part (fun hroot => (Bool.and_eq_true_iff.mp hroot).2) (List.sublist_append_right _ _)
  have hlast : IsName last := h.named last (List.mem_append_right _ (List.mem_singleton_self last))
  obtain ⟨text, htext, -⟩ := hlimits.format
  have hfilename : luaPathGetFilename path = some text := by
    rw [luaPathGetFilename, hpath, Option.bind_some, unixBuffer_segments, if_pos hpos, pathFormatPartial_last, htext]
  have hplain : last.bytes = (unixBuffer false ⟨0, [last]⟩).text := text_leaf last
  rw [hfilename, Option.some.injEq]
  constructor
  · rintro rfl
    have hsame := PathBuffer.eq_of_text hlimits.named (named_leaf hlast) rfl rfl rfl (pathFormat_text htext) hplain
    simp only [unixBuffer, PathBuffer.mk.injEq, Bool.and_eq_false_imp, decide_eq_true_eq] at hsame
    obtain ⟨-, hroot, -, hups, -⟩ := hsame
    refine ⟨hups, fun hleaf => ?_⟩
    exact Bool.false_ne_true ((hroot hleaf.2).symm.trans hleaf.1)
  · rintro ⟨rfl, hroot⟩
    have hnone : (decide (init = []) && absolute) = false := by
      rw [Bool.and_eq_false_imp, decide_eq_true_eq]
      exact fun hnil => Bool.not_eq_true _ |>.mp fun habsolute => hroot ⟨habsolute, hnil⟩
    rw [hnone] at htext
    exact CString.ext_bytes ((pathFormat_text htext).trans hplain.symm)

/-- Splitting and joining are inverse, and a path ends in its filename, if no `..` leads out of the path and
there is no root in front of its only segment. -/
theorem splitsAndJoins_iff (hcount : (pathNames path).length ≤ kMaxPathSegments)
    (hlength : path.bytes.length + 1 < kMaxPathLength) :
    SplitsAndJoins path ↔
      (pathWalk path).names = [] ∨
      ((pathWalk path).ups = 0 ∧ ¬(path.bytes.head? = some 47 ∧ (pathWalk path).names.length = 1)) := by
  obtain ⟨hpath, hlimits⟩ := pathInit_withinLimits hcount hlength
  rcases List.eq_nil_or_concat' (pathWalk path).names with hnil | ⟨init, last, hnames⟩
  · refine iff_of_true ⟨luaPathJoin_single hpath hlimits ?_, fun name hname => ?_⟩ (.inl hnil)
    · rw [hnil]
      exact Nat.zero_le _
    · rw [hnil] at hname
      cases hname
  · have hwalk : pathWalk path = ⟨(pathWalk path).ups, init ++ [last]⟩ := Walk.ext rfl hnames
    have hone : (init ++ [last]).length = 1 ↔ init = [] := by
      rw [List.length_append, List.length_singleton, Nat.add_eq_right, List.length_eq_zero_iff]
    have hne : init ++ [last] ≠ [] := List.append_ne_nil_of_right_ne_nil _ (List.cons_ne_nil _ _)
    have hleaf : IsName last :=
      hlimits.named last
      (by rw [unixBuffer_segments, hnames]; exact List.mem_append_right _ (List.mem_singleton_self last))
    have hsingle := luaPathJoin_single hpath hlimits
    rw [hwalk] at hpath hlimits
    have hfilename := luaPathGetFilename_iff hpath hlimits
    rw [decide_eq_true_eq] at hfilename
    rw [hnames, hone, or_iff_right hne, ← hfilename]
    constructor
    · intro h
      exact (h.filename last (by rw [hnames]; exact List.getLast?_concat)).1
    · intro h
      refine ⟨?_, fun name hname => ?_⟩
      · by_cases hinit : init = []
        · exact hsingle (by rw [hnames, hinit]; exact Nat.le_refl 1)
        · exact (luaPathJoin_iff hpath hlimits hinit).mpr (hfilename.mp h).1
      · rw [hnames, List.getLast?_concat, Option.some.injEq] at hname
        subst hname
        exact ⟨h, hleaf.noSeparator⟩

theorem splitsAndJoins_program : SplitsAndJoins (.lit "/a/./b//../c.h") :=
  (splitsAndJoins_iff (by decide) (by decide)).mpr (.inr (by decide))

/-- `../a/b`: both parts start with the `..`, which then takes back the directory. -/
theorem luaPathSplit_dotdot : luaPathSplit (.lit "../a/b") = some (.lit "../a", .lit "../b") ∧
    luaPathJoin (.lit "../a") (.lit "../b") = some (.lit "../b") ∧ luaPathNormalize (.lit "../a/b") = some
    (.lit "../a/b") ∧
    luaPathGetFilename (.lit "../a/b") = some (.lit "../b") ∧ ¬SplitsAndJoins (.lit "../a/b") := by
  have hfilename : luaPathGetFilename (.lit "../a/b") = some (.lit "../b") := by decide
  refine ⟨by decide, by decide, by decide, hfilename, fun h => ?_⟩
  have hlast := (h.filename (.lit "b") (by decide)).1
  rw [hfilename] at hlast
  exact absurd hlast (by decide)

end Tundra
