import Tundra.PathUtil.Ancestors
import Tundra.PathUtil.Names
import Mathlib.Algebra.Order.BigOperators.Group.List
import Mathlib.Data.List.Induction

/-!
# The normal form of a path

The path that `PathFormat` writes from what `PathInit` has stored is the one a stack of names gives from left to
right. It is a normal form: taking it apart again gives the same buffer.
-/

namespace Tundra

/-- One segment, with a stack: `.` is dropped, `..` pops a segment or is counted. -/
def stackStep (state : Nat × List (List UInt8)) (seg : List UInt8) : Nat × List (List UInt8) :=
  if seg = [46] then state
  else if seg = [46, 46] then if state.2 = [] then (state.1 + 1, []) else (state.1, state.2.dropLast)
  else (state.1, state.2 ++ [seg])

/-- The reduced form of a path: whether it starts with a slash, the leading `..`, and the segments that are kept. -/
def reducedForm (path : CString) : Bool × Nat × List (List UInt8) :=
  (path.bytes.head? = some 47, ((path.bytes.splitOnP isSeparator).filter (· ≠ [])).foldl stackStep (0, []))

/-- The path a stack of segments gives. -/
def stackNormaliser (path : CString) : List UInt8 :=
  let (absolute, leading, kept) := reducedForm path
  (if absolute then [47] else []) ++ (List.replicate leading [46, 46, 47]).flatten ++ [47].intercalate kept

/-- `PathFormat` of `PathInit`, which is also `LuaPathNormalize`. -/
def pathNormalize (path : CString) (type : PathType) : Option CString := (pathInit path type).bind pathFormat

/-- A name that is not `.` or `..`. -/
structure IsName (name : CString) : Prop where
  ne_nil : name.bytes ≠ []
  noSeparator : ∀ ch ∈ name.bytes, isSeparator ch = false
  ne_dot : name.bytes ≠ [46]
  ne_dotDot : name.bytes ≠ [46, 46]

variable {path : CString}

/-! ### Names -/

theorem mem_splitOnP {α : Type} {p : α → Bool} {l piece : List α} (h : piece ∈ l.splitOnP p) {a : α} (ha : a ∈ piece) :
    a ∈ l ∧ p a = false := by
  induction l generalizing piece with
  | nil =>
      rw [List.splitOnP_nil, List.mem_singleton] at h
      subst h
      cases ha
  | cons b l ih =>
      rw [List.splitOnP_cons_eq_if_modifyHead] at h
      split_ifs at h with hb
      · rcases List.mem_cons.mp h with rfl | h
        · cases ha
        · exact ⟨List.mem_cons_of_mem b (ih h ha).1, (ih h ha).2⟩
      · obtain ⟨first, rest, hsplit⟩ := List.exists_cons_of_ne_nil (List.splitOnP_ne_nil p l)
        rw [hsplit] at h ih
        rcases List.mem_cons.mp h with rfl | h
        · rcases List.mem_cons.mp ha with rfl | ha
          · exact ⟨List.mem_cons_self, Bool.eq_false_iff.mpr hb⟩
          · obtain ⟨hmem, hp⟩ := ih List.mem_cons_self ha
            exact ⟨List.mem_cons_of_mem b hmem, hp⟩
        · obtain ⟨hmem, hp⟩ := ih (List.mem_cons_of_mem first h) ha
          exact ⟨List.mem_cons_of_mem b hmem, hp⟩

theorem bytes_ofBytes_piece {piece : List UInt8} (h : piece ∈ path.bytes.splitOnP isSeparator) :
    (CString.ofBytes piece).bytes = piece := by
  refine List.takeWhile_eq_self_iff.mpr fun ch hch => ?_
  rw [decide_eq_true_eq]
  rintro rfl
  exact path.noNul (mem_splitOnP h hch).1

theorem map_bytes_pathNames (path : CString) :
    (pathNames path).map CString.bytes = (path.bytes.splitOnP isSeparator).filter (· ≠ []) := by
  rw [pathNames, pieceNames, List.map_map]
  conv_rhs => rw [← List.map_id (List.filter _ _)]
  refine List.map_congr_left fun piece hpiece => ?_
  exact bytes_ofBytes_piece (List.mem_of_mem_filter hpiece)

theorem isName_pathWalk {name : CString} (h : name ∈ (pathWalk path).names) : IsName name := by
  have hstep := Walk.mem_of_mem_names h
  rw [List.mem_filterMap] at hstep
  obtain ⟨name', hname', hstep⟩ := hstep
  rw [pathStep] at hstep
  split_ifs at hstep with hdot hdotDot
  · cases hstep
  obtain rfl := WalkStep.down.inj (Option.some.inj hstep)
  have hmem : name'.bytes ∈ (pathNames path).map CString.bytes := List.mem_map_of_mem hname'
  rw [map_bytes_pathNames, List.mem_filter, decide_eq_true_eq] at hmem
  exact ⟨hmem.2, fun ch hch => (mem_splitOnP hmem.1 hch).2, hdot, hdotDot⟩

/-! ### From left to right -/

theorem foldl_stackStep (names : List CString) : (names.map CString.bytes).foldl stackStep (0, []) =
    ((Walk.ofSteps (names.filterMap pathStep)).ups,
    (Walk.ofSteps (names.filterMap pathStep)).names.map CString.bytes) := by
  induction names using List.reverseRecOn with
  | nil => rfl
  | append_singleton names name ih =>
      rw [List.map_append, List.foldl_append, ih, List.map_singleton, List.foldl_cons, List.foldl_nil,
        List.filterMap_append]
      by_cases hdot : name.bytes = [46]
      · have hstep : pathStep name = none := if_pos hdot
        rw [List.filterMap_cons_none hstep, List.filterMap_nil, List.append_nil, stackStep, if_pos hdot]
      · by_cases hdotDot : name.bytes = [46, 46]
        · have hstep : pathStep name = some .up := by rw [pathStep, if_neg hdot, if_pos hdotDot]
          rw [List.filterMap_cons_some hstep, List.filterMap_nil, Walk.ofSteps_concat_up, stackStep, if_neg hdot,
            if_pos hdotDot]
          simp only [List.map_eq_nil_iff]
          split_ifs with hnames
          · rfl
          · rw [List.map_dropLast]
        · have hstep : pathStep name = some (.down name) := by rw [pathStep, if_neg hdot, if_neg hdotDot]
          rw [List.filterMap_cons_some hstep, List.filterMap_nil, Walk.ofSteps_concat_down, stackStep, if_neg hdot,
            if_neg hdotDot]
          simp only [List.map_append, List.map_singleton]

theorem reducedForm_eq (path : CString) :
    reducedForm path = (decide (path.bytes.head? = some 47), (pathWalk path).ups,
    (pathWalk path).names.map CString.bytes) := by
  rw [reducedForm, ← map_bytes_pathNames, foldl_stackStep, pathWalk]

theorem pathRoot_unix_eq (path : CString) :
    (pathRoot path .unix).1 = decide (path.bytes.head? = some 47) ∧ (pathRoot path .unix).2.1 = false := by
  simp only [pathRoot]
  split_ifs with hslash
  · exact ⟨(decide_eq_true hslash).symm, rfl⟩
  · exact ⟨(decide_eq_false hslash).symm, rfl⟩

theorem text_pathInit (hlength : path.bytes.length < 2 ^ 16) {buffer : PathBuffer}
    (h : pathInit path .unix = some buffer) :
    buffer.text = stackNormaliser path := by
  rw [pathInit_eq hlength, Option.ite_none_right_eq_some, Option.some.injEq] at h
  obtain ⟨-, rfl⟩ := h
  obtain ⟨habsolute, hdevice⟩ := pathRoot_unix_eq path
  rw [PathBuffer.text, stackNormaliser, reducedForm_eq, habsolute, hdevice]
  simp only [Bool.not_false, Bool.and_true]
  rfl

/-! ### Taking a normal form apart -/

def PathBuffer.Named (buffer : PathBuffer) : Prop := ∀ name ∈ buffer.segments, IsName name

theorem isSeparator_separator (type : PathType) : ∃ sep, type.separator.bytes = [sep] ∧ isSeparator sep = true := by
  cases type with
  | unix => exact ⟨47, rfl, rfl⟩
  | windows => exact ⟨92, rfl, rfl⟩

theorem pieceNames_splitOnP_names {sep : UInt8} (hsep : isSeparator sep = true) {name : CString}
    {names : List CString} (h : ∀ n ∈ name :: names, IsName n) :
    pieceNames ((name.bytes ++ sepNames [sep] names).splitOnP isSeparator) = name :: names := by
  induction names generalizing name with
  | nil =>
      have hname := h name List.mem_cons_self
      rw [sepNames, List.flatMap_nil, List.append_nil, List.splitOnP_eq_singleton hname.noSeparator, pieceNames_cons,
        if_neg hname.ne_nil]
      rfl
  | cons name' names ih =>
      have hname := h name List.mem_cons_self
      have hrest := ih fun n hn => h n (List.mem_cons_of_mem name hn)
      rw [sepNames, List.flatMap_cons, List.append_assoc, List.singleton_append,
        List.splitOnP_append_cons_of_forall_mem hname.noSeparator sep hsep, pieceNames_cons, if_neg hname.ne_nil, ← sepNames, hrest]
      rfl

theorem pieceNames_splitOnP_dotDots {sep : UInt8} (hsep : isSeparator sep = true) (n : Nat) (rest : List UInt8) :
    pieceNames (((List.replicate n (dotDot.bytes ++ [sep])).flatten ++ rest).splitOnP isSeparator) =
      List.replicate n dotDot ++ pieceNames (rest.splitOnP isSeparator) := by
  induction n with
  | zero => rfl
  | succ n ih =>
      have hbytes : dotDot.bytes = [46, 46] := rfl
      have hdots : ∀ ch ∈ dotDot.bytes, isSeparator ch = false := by simp [hbytes, isSeparator]
      have hne : dotDot.bytes ≠ [] := by decide
      rw [List.replicate_succ, List.flatten_cons, List.append_assoc, List.append_assoc, List.singleton_append,
        List.splitOnP_append_cons_of_forall_mem hdots sep hsep, pieceNames_cons, if_neg hne, ih, List.replicate_succ]
      rfl

theorem pathNames_text {buffer : PathBuffer} (h : buffer.Named) (htext : path.bytes = buffer.text) :
    pathNames path = List.replicate buffer.leadingDotDots dotDot ++ buffer.segments := by
  obtain ⟨sep, hbytes, hsep⟩ := isSeparator_separator buffer.type
  have hroot : ∀ rest : List UInt8,
      pieceNames (((if buffer.absolute && !buffer.windowsDevicePath then buffer.type.separator.bytes else []) ++
        rest).splitOnP isSeparator) =
        pieceNames (rest.splitOnP isSeparator) := by
    intro rest
    split_ifs with habsolute
    · rw [hbytes, List.singleton_append, List.splitOnP_cons_eq_if_modifyHead, if_pos hsep]
      exact pieceNames_append [[]] _
    · rfl
  rw [pathNames, htext, PathBuffer.text, List.append_assoc, hroot, hbytes, pieceNames_splitOnP_dotDots hsep]
  congr 1
  cases hsegs : buffer.segments with
  | nil => rfl
  | cons name names =>
      rw [intercalate_cons_names]
      exact pieceNames_splitOnP_names hsep (hsegs ▸ h)

theorem filterMap_pathStep_named {names : List CString} (h : ∀ name ∈ names, IsName name) (n : Nat) :
    (List.replicate n dotDot ++ names).filterMap pathStep = Walk.toSteps ⟨n, names⟩ := by
  have hup : pathStep dotDot = some .up := rfl
  rw [List.filterMap_append, List.filterMap_replicate_of_some hup, Walk.toSteps]
  congr 1
  induction names with
  | nil => rfl
  | cons name names ih =>
      have hname := h name List.mem_cons_self
      have hdown : pathStep name = some (.down name) := by rw [pathStep, if_neg hname.ne_dot, if_neg hname.ne_dotDot]
      rw [List.filterMap_cons_some hdown, ih fun n hn => h n (List.mem_cons_of_mem name hn), List.map_cons]

theorem pathWalk_text {buffer : PathBuffer} (h : buffer.Named) (htext : path.bytes = buffer.text) :
    pathWalk path = ⟨buffer.leadingDotDots, buffer.segments⟩ := by
  rw [pathWalk, pathNames_text h htext, filterMap_pathStep_named h, Walk.ofSteps_toSteps]

theorem text_leaf (leaf : CString) : leaf.bytes = (PathBuffer.mk .unix false false 0 [leaf]).text := by
  rw [PathBuffer.text]
  simp [List.intercalate]

theorem named_leaf {leaf : CString} (h : IsName leaf) : (PathBuffer.mk .unix false false 0 [leaf]).Named := by
  intro name hname
  rw [List.mem_singleton.mp hname]
  exact h

theorem pathNames_leaf {leaf : CString} (h : IsName leaf) :
    pathNames leaf = [leaf] := pathNames_text (named_leaf h) (text_leaf leaf)

theorem pathWalk_leaf {leaf : CString} (h : IsName leaf) :
    pathWalk leaf = ⟨0, [leaf]⟩ := pathWalk_text (named_leaf h) (text_leaf leaf)

theorem head_text {buffer : PathBuffer} (h : buffer.Named) (hdevice : buffer.windowsDevicePath = false) :
    buffer.text.head?.any isSeparator = buffer.absolute := by
  obtain ⟨sep, hbytes, hsep⟩ := isSeparator_separator buffer.type
  cases habsolute : buffer.absolute with
  | true => simp [PathBuffer.text, habsolute, hdevice, hbytes, hsep]
  | false =>
      rw [PathBuffer.text]
      simp only [habsolute, Bool.false_and, Bool.false_eq_true, if_false, List.nil_append]
      cases hups : buffer.leadingDotDots with
      | succ n =>
          rw [List.replicate_succ, List.flatten_cons]
          rfl
      | zero =>
          cases hsegs : buffer.segments with
          | nil => rfl
          | cons name names =>
              have hname := h name (hsegs ▸ List.mem_cons_self)
              rw [intercalate_cons_names]
              cases hchars : name.bytes with
              | nil => exact absurd hchars hname.ne_nil
              | cons ch chars => exact hname.noSeparator ch (hchars ▸ List.mem_cons_self)

/-! ### Lengths -/

theorem sum_length_splitOnP {α : Type} (p : α → Bool) (l : List α) :
    ((l.splitOnP p).map List.length).sum ≤ l.length := by
  induction l with
  | nil => exact Nat.le_refl 0
  | cons a l ih =>
      obtain ⟨first, rest, hsplit⟩ := List.exists_cons_of_ne_nil (List.splitOnP_ne_nil p l)
      rw [List.splitOnP_cons_eq_if_modifyHead, hsplit]
      rw [hsplit] at ih
      simp only [List.map_cons, List.sum_cons, List.length_cons] at ih ⊢
      split_ifs
      · simp only [List.map_cons, List.sum_cons, List.length_nil]
        omega
      · simp only [List.modifyHead_cons, List.map_cons, List.sum_cons, List.length_cons]
        omega

theorem bufferSize_sublist {l r : List CString} (h : l.Sublist r) : bufferSize l ≤ bufferSize r :=
  (h.map _).sum_le_sum fun _ _ => Nat.zero_le _

theorem bufferSize_pathNames (path : CString) : bufferSize (pathNames path) ≤ path.bytes.length := by
  have hmap : bufferSize (pathNames path) = (((pathNames path).map CString.bytes).map List.length).sum := by
    rw [bufferSize, List.map_map]
    rfl
  rw [hmap, map_bytes_pathNames]
  exact ((List.filter_sublist.map _).sum_le_sum fun _ _ => Nat.zero_le _).trans (sum_length_splitOnP _ _)

theorem pathStep_down {name name' : CString} (h : pathStep name = some (.down name')) : name' = name := by
  rw [pathStep] at h
  split_ifs at h
  · cases h
  · exact (WalkStep.down.inj (Option.some.inj h)).symm

theorem names_ofSteps_sublist (names : List CString) :
    (Walk.ofSteps (names.filterMap pathStep)).names.Sublist names := by
  induction names with
  | nil => exact List.Sublist.refl _
  | cons name names ih =>
      cases hstep : pathStep name with
      | none =>
          rw [List.filterMap_cons_none hstep]
          exact ih.cons name
      | some step =>
          rw [List.filterMap_cons_some hstep]
          cases step with
          | up =>
              rw [Walk.ofSteps_up_cons]
              exact ih.cons name
          | down name' =>
              obtain rfl := pathStep_down hstep
              rw [Walk.ofSteps_down_cons]
              split_ifs
              · exact ih.cons name'
              · exact ih.cons_cons name'

theorem copyFits_pathWalk (h : path.bytes.length < kMaxPathLength) : CopyFits 0 (pathWalk path).names := by
  have hlast := bufferSize_sublist (List.dropLast_sublist (pathWalk path).names)
  have hnames := bufferSize_sublist (names_ofSteps_sublist (pathNames path))
  have hsize := bufferSize_pathNames path
  rw [← pathWalk] at hnames
  exact .inr (by omega)

theorem length_pathWalk (path : CString) :
    (pathWalk path).ups + (pathWalk path).names.length ≤ (pathNames path).length :=
  (Walk.length_ofSteps _).trans (List.length_filterMap_le _ _)

theorem length_sepNames {sep : List UInt8} (hsep : sep.length = 1) (names : List CString) :
    (sepNames sep names).length = namesSize names := by
  induction names with
  | nil => rfl
  | cons name names ih =>
      rw [sepNames, List.flatMap_cons, ← sepNames, List.length_append, ih, List.length_append, hsep, namesSize,
        namesSize, List.map_cons,
        List.sum_cons]
      omega

theorem length_text {buffer : PathBuffer} (hdevice : buffer.windowsDevicePath = false) (hne : buffer.segments ≠ []) :
    buffer.text.length + 1 = (if buffer.absolute then 1 else 0) + 3 * buffer.leadingDotDots +
    namesSize buffer.segments := by
  obtain ⟨name, names, hsegs⟩ := List.exists_cons_of_ne_nil hne
  have hsep : buffer.type.separator.bytes.length = 1 := by cases buffer.type <;> rfl
  have hroot : (if (buffer.absolute && !buffer.windowsDevicePath) = true then buffer.type.separator.bytes
    else []).length =
      if buffer.absolute then 1 else 0 := by
    rw [hdevice, Bool.not_false, Bool.and_true]
    split_ifs
    · exact hsep
    · rfl
  have hdots : (List.replicate buffer.leadingDotDots (dotDot.bytes ++ buffer.type.separator.bytes)).flatten.length =
      3 * buffer.leadingDotDots := by
    have hthree : (dotDot.bytes ++ buffer.type.separator.bytes).length = 3 := by
      rw [List.length_append, hsep]
      rfl
    rw [List.length_flatten, List.map_replicate, hthree, List.sum_replicate_nat, Nat.mul_comm]
  rw [PathBuffer.text, List.length_append, List.length_append, hroot, hdots, hsegs, intercalate_cons_names,
    List.length_append,
    length_sepNames hsep, namesSize, namesSize, List.map_cons, List.sum_cons]
  omega

/-! ### The normal form -/

/-- The buffer of a normal form is the buffer whose text it is. -/
theorem pathInit_text {buffer : PathBuffer} (htype : buffer.type = .unix)
    (hdevice : buffer.windowsDevicePath = false) (hnamed : buffer.Named)
    (hcount : buffer.leadingDotDots + buffer.segments.length ≤ kMaxPathSegments)
    (hfits : CopyFits 0 buffer.segments) (hlength : path.bytes.length < 2 ^ 16) (htext : path.bytes = buffer.text) :
    pathInit path .unix = some buffer := by
  have hroot : (pathRoot path .unix).1 = buffer.absolute := by
    rw [(pathRoot_unix_eq path).1, htext]
    have hhead := head_text hnamed hdevice
    cases habsolute : buffer.absolute with
    | true =>
        rw [PathBuffer.text, habsolute, hdevice, htype]
        rfl
    | false =>
        rw [habsolute] at hhead
        refine decide_eq_false fun hslash => ?_
        rw [hslash] at hhead
        cases hhead
  have hcount' : (pathNames path).length ≤ kMaxPathSegments := by
    rw [pathNames_text hnamed htext, List.length_append, List.length_replicate]
    exact hcount
  rw [pathInit_eq hlength, pathWalk_text hnamed htext, if_pos ⟨hcount', hfits⟩, hroot, (pathRoot_unix_eq path).2,
    ← htype, ← hdevice]

theorem named_pathInit {type : PathType} (hlength : path.bytes.length < 2 ^ 16) {buffer : PathBuffer}
    (h : pathInit path type = some buffer) :
    buffer.Named ∧ buffer.leadingDotDots + buffer.segments.length ≤ kMaxPathSegments ∧ CopyFits 0 buffer.segments := by
  rw [pathInit_eq hlength, Option.ite_none_right_eq_some, Option.some.injEq] at h
  obtain ⟨⟨hcount, hfits⟩, rfl⟩ := h
  exact ⟨fun name hname => isName_pathWalk hname, (length_pathWalk path).trans hcount, hfits⟩

theorem pathNormalize_bytes (hlength : path.bytes.length < 2 ^ 16) {result : CString}
    (h : pathNormalize path .unix = some result) :
    result.bytes = stackNormaliser path := by
  obtain ⟨buffer, hinit, hformat⟩ := Option.bind_eq_some_iff.mp h
  exact (pathFormat_text hformat).trans (text_pathInit hlength hinit)

theorem pathNormalize_idem (hlength : path.bytes.length < 2 ^ 16) {result : CString}
    (h : pathNormalize path .unix = some result) :
    pathNormalize result .unix = some result := by
  obtain ⟨buffer, hinit, hformat⟩ := Option.bind_eq_some_iff.mp h
  obtain ⟨htype, hdevice, -⟩ := pathInit_size hinit
  obtain ⟨hnamed, hcount, hfits⟩ := named_pathInit hlength hinit
  have hdots := pathInit_leadingDotDots hinit
  have hresult : result.bytes.length < kMaxPathLength := pathFormat_length (by omega) hformat
  have hshort : result.bytes.length < 2 ^ 16 := lt_of_lt_of_le hresult (by decide)
  refine Option.bind_eq_some_iff.mpr ⟨buffer, ?_, hformat⟩
  exact pathInit_text htype hdevice hnamed hcount hfits hshort (pathFormat_text hformat)

theorem pathNormalize_isSome (hcount : (pathNames path).length ≤ kMaxPathSegments)
    (hlength : path.bytes.length + 1 < kMaxPathLength) :
    ∃ result, pathNormalize path .unix = some result := by
  have hshort : path.bytes.length < 2 ^ 16 := by
    rw [kMaxPathLength] at hlength
    omega
  have hfits : CopyFits 0 (pathWalk path).names := copyFits_pathWalk (by omega)
  have hinit := pathInit_eq hshort .unix
  rw [if_pos ⟨hcount, hfits⟩] at hinit
  obtain ⟨-, hdevice, hsize⟩ := pathInit_size hinit
  rw [pathNormalize, hinit, Option.bind_some]
  refine pathFormat_isSome ?_
  by_cases hne : (pathWalk path).names = []
  · exact .inl hne
  · have htext := length_text hdevice hne
    exact .inr (by omega)

/-- Formatting a path puts it into the normal form that a stack of segments gives, and spellings with one
reduced form become one string. -/
theorem pathNormalize_unix (path : CString) (hlength : path.bytes.length < 2 ^ 16) :
    (∀ result, pathNormalize path .unix = some result → result.bytes = stackNormaliser path ∧
    pathNormalize result .unix = some result ∧
      ∀ other otherResult, other.bytes.length < 2 ^ 16 → reducedForm other = reducedForm path →
      pathNormalize other .unix = some otherResult →
        otherResult = result ∧ djb2HashPath otherResult = djb2HashPath result) ∧
    ((pathNames path).length ≤ kMaxPathSegments → path.bytes.length + 1 < kMaxPathLength →
    ∃ result, pathNormalize path .unix = some result) := by
  refine ⟨fun result hresult => ?_, pathNormalize_isSome⟩
  have hbytes := pathNormalize_bytes hlength hresult
  refine ⟨hbytes, pathNormalize_idem hlength hresult, fun other otherResult hother hform hotherResult => ?_⟩
  have hotherBytes := pathNormalize_bytes hother hotherResult
  have hsame : otherResult = result := by
    refine CString.ext_bytes ?_
    rw [hotherBytes, hbytes, stackNormaliser, stackNormaliser, hform]
  exact ⟨hsame, congrArg djb2HashPath hsame⟩

theorem pathNormalize_unix_spelling : pathNormalize (.lit "a/../../b/./c//") .unix = some (.lit "../b/c") ∧
    (CString.lit "../b/c").bytes = stackNormaliser (.lit "a/../../b/./c//") := by
  have hnormal : pathNormalize (.lit "a/../../b/./c//") .unix = some (.lit "../b/c") := by decide
  have hlength : (CString.lit "a/../../b/./c//").bytes.length < 2 ^ 16 := by decide
  exact ⟨hnormal, ((pathNormalize_unix _ hlength).1 _ hnormal).1⟩

end Tundra
