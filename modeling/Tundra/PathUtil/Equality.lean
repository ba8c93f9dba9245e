import Tundra.PathUtil.MemoryRefine
import Tundra.PathUtil.NormalForm

/-!
# Equal paths

`operator==` compares the ends of the segments, but only as much of the text as the last segment is long, and
neither the flags nor the leading `..`. Two buffers that it finds equal need not format alike.
-/

namespace Tundra

open Checked (MemoryFault inBounds ok_bind inBounds_some)

/-- `SegLength` of the last segment. -/
def lastLength (names : List CString) : Nat := names.getLast?.elim 0 fun name => name.bytes.length

/-- `operator==`. -/
def pathEq (a b : PathBuffer) : Bool :=
  if a.segments.length ≠ b.segments.length then false
  else if a.segments.length = 0 then true
  else nameEnds 0 a.segments = nameEnds 0 b.segments &&
    (bufferText a.segments).take (lastLength a.segments) = (bufferText b.segments).take (lastLength a.segments)

/-- `operator==` in memory. -/
def PathMemory.pathEq (checks : Bool) (a b : PathMemory.Buffer) : Except MemoryFault Bool :=
  if a.segCount ≠ b.segCount then .ok false
  else if a.segCount = 0 then .ok true
  else do
    let aEnds ← inBounds (a.segEnds.read 0 a.segCount)
    let bEnds ← inBounds (b.segEnds.read 0 a.segCount)
    if aEnds ≠ bEnds then .ok false
    else do
      let len ← a.segLength checks (a.segCount - 1)
      let aText ← inBounds (a.data.read 0 len)
      let bText ← inBounds (b.data.read 0 len)
      return aText = bText

def PathBuffer.showsRoot (buffer : PathBuffer) : Bool := buffer.absolute && !buffer.windowsDevicePath

/-- The lengths of the names of a path. -/
def nameLengths (names : List CString) : List Nat := names.map fun name => name.bytes.length

/-- Paths whose names have the same lengths, one by one, and begin alike when they are written one after the
other, for as many bytes as the last name has. -/
def LooksAlike (a b : PathBuffer) : Prop := nameLengths a.segments = nameLengths b.segments ∧
  (a.segments.flatMap CString.bytes).take (lastLength a.segments) =
    (b.segments.flatMap CString.bytes).take (lastLength a.segments)

instance (a b : PathBuffer) : Decidable (LooksAlike a b) := inferInstanceAs (Decidable (_ ∧ _))

/-- The same names below the same root, behind as many leading `..`. -/
structure SamePath (a b : PathBuffer) : Prop where
  absolute : a.absolute = b.absolute
  showsRoot : a.showsRoot = b.showsRoot
  leadingDotDots : a.leadingDotDots = b.leadingDotDots
  segments : a.segments = b.segments

/-- Paths with the same text have names of the same lengths. -/
def SplitsAlike (a b : PathBuffer) : Prop := a.text = b.text → nameLengths a.segments = nameLengths b.segments

/-- `operator==` tells two paths apart if and only if they format differently. -/
structure EqIsSamePath (a b : PathBuffer) (aText bText : CString) : Prop where
  format : pathEq a b = true ↔ aText = bText
  segments : a.segments ≠ b.segments → pathEq a b = false
  absolute : a.absolute ≠ b.absolute → pathEq a b = false
  leadingDotDots : a.leadingDotDots ≠ b.leadingDotDots → pathEq a b = false

/-- The buffers that `PathInit`, `PathStripLast` and `PathConcat` make of paths with 16-bit offsets. -/
inductive Made : PathBuffer → Prop where
  | init {path : CString} {type : PathType} {buffer : PathBuffer} : path.bytes.length < 2 ^ 16 →
      pathInit path type = some buffer → Made buffer
  | stripLast {buffer : PathBuffer} : Made buffer → Made (pathStripLast buffer).2
  | concat {buffer other result : PathBuffer} : Made buffer → Made other → pathConcat buffer other = some result →
      Made result

variable {a b c : PathBuffer} {names more : List CString}

/-! ### Texts and their lengths -/

/-- The ends of the names say their lengths, and the other way round. -/
theorem nameEnds_eq_iff {pos : Nat} :
    nameEnds pos names = nameEnds pos more ↔ nameLengths names = nameLengths more := by
  induction names generalizing pos more with
  | nil => cases more <;> simp [nameEnds, nameLengths]
  | cons name names ih =>
      cases more with
      | nil => simp [nameEnds, nameLengths]
      | cons name' more =>
          rw [nameEnds, nameEnds, nameLengths, nameLengths, List.map_cons, List.map_cons, List.cons.injEq,
            List.cons.injEq, Nat.add_left_cancel_iff]
          refine and_congr_right fun hlength => ?_
          rw [hlength]
          exact ih

theorem sepNames_lengths (sep : List UInt8) (h : nameLengths names = nameLengths more) :
    (sepNames sep names).length = (sepNames sep more).length ∧
    (sepNames sep names = sepNames sep more → names = more) := by
  induction names generalizing more with
  | nil =>
      cases more with
      | nil => exact ⟨rfl, fun _ => rfl⟩
      | cons name more => cases h
  | cons name names ih =>
      cases more with
      | nil => cases h
      | cons name' more =>
          rw [nameLengths, nameLengths, List.map_cons, List.map_cons, List.cons.injEq] at h
          obtain ⟨hlength, hinj⟩ := ih h.2
          have hfirst : (sep ++ name.bytes).length = (sep ++ name'.bytes).length := by
            rw [List.length_append, List.length_append, h.1]
          rw [sepNames, sepNames, List.flatMap_cons, List.flatMap_cons, ← sepNames, ← sepNames]
          refine ⟨?_, fun heq => ?_⟩
          · simp only [List.length_append] at hfirst ⊢
            omega
          · obtain ⟨hname, hnames⟩ := List.append_inj heq hfirst
            rw [CString.ext_bytes (List.append_cancel_left hname), hinj hnames]

theorem intercalate_lengths (sep : List UInt8) (h : nameLengths names = nameLengths more) :
    (sep.intercalate (names.map CString.bytes)).length = (sep.intercalate (more.map CString.bytes)).length ∧
      (sep.intercalate (names.map CString.bytes) = sep.intercalate (more.map CString.bytes) → names = more) := by
  cases names with
  | nil =>
      cases more with
      | nil => exact ⟨rfl, fun _ => rfl⟩
      | cons name more => cases h
  | cons name names =>
      cases more with
      | nil => cases h
      | cons name' more =>
          rw [nameLengths, nameLengths, List.map_cons, List.map_cons, List.cons.injEq] at h
          obtain ⟨hlength, hinj⟩ := sepNames_lengths sep h.2
          rw [intercalate_cons_names, intercalate_cons_names, List.length_append, List.length_append, h.1, hlength]
          refine ⟨rfl, fun heq => ?_⟩
          obtain ⟨hname, hnames⟩ := List.append_inj heq h.1
          rw [CString.ext_bytes hname, hinj hnames]

/-- Buffers with names of the same lengths format alike only if they have the same root, the same leading `..`
and the same names. -/
theorem text_eq_iff (htype : a.type = b.type) (hlengths : nameLengths a.segments = nameLengths b.segments) :
    a.text = b.text ↔ a.showsRoot = b.showsRoot ∧ a.leadingDotDots = b.leadingDotDots ∧ a.segments = b.segments := by
  have hsep : b.type.separator.bytes.length = 1 := by cases b.type <;> rfl
  obtain ⟨hlength, hinj⟩ := intercalate_lengths b.type.separator.bytes hlengths
  have hdots : ∀ n, (List.replicate n (dotDot.bytes ++ b.type.separator.bytes)).flatten.length = 3 * n := by
    intro n
    have hthree : (dotDot.bytes ++ b.type.separator.bytes).length = 3 := by
      rw [List.length_append, hsep]
      rfl
    rw [List.length_flatten, List.map_replicate, hthree, List.sum_replicate_nat, Nat.mul_comm]
  rw [PathBuffer.text, PathBuffer.text, htype, ← PathBuffer.showsRoot, ← PathBuffer.showsRoot]
  constructor
  · intro h
    have hlengths := congrArg List.length h
    simp only [List.length_append, hdots, hlength] at hlengths
    have hroot : a.showsRoot = b.showsRoot := by
      cases ha : a.showsRoot <;> cases hb : b.showsRoot <;> simp [ha, hb, hsep] at hlengths ⊢ <;> omega
    rw [hroot] at h hlengths
    have hleading : a.leadingDotDots = b.leadingDotDots := by omega
    rw [hleading] at h
    exact ⟨hroot, hleading, hinj (List.append_cancel_left h)⟩
  · rintro ⟨hroot, hleading, hsegments⟩
    rw [hroot, hleading, hsegments]

/-! ### The comparison -/

theorem nameLengths_length (h : nameLengths names = nameLengths more) : names.length = more.length := by
  simpa [nameLengths] using congrArg List.length h

theorem pathEq_eq_true_iff : pathEq a b = true ↔ LooksAlike a b := by
  rw [pathEq, LooksAlike]
  by_cases hcount : a.segments.length = b.segments.length
  · rw [if_neg (not_not.mpr hcount)]
    by_cases hzero : a.segments.length = 0
    · have ha : a.segments = [] := List.eq_nil_of_length_eq_zero hzero
      have hb : b.segments = [] := List.eq_nil_of_length_eq_zero (hcount.symm.trans hzero)
      rw [if_pos hzero, ha, hb]
      exact iff_of_true rfl ⟨rfl, rfl⟩
    · rw [if_neg hzero, Bool.and_eq_true, decide_eq_true_eq, decide_eq_true_eq, nameEnds_eq_iff, bufferText, bufferText]
  · rw [if_pos hcount]
    exact iff_of_false Bool.false_ne_true fun h => hcount (nameLengths_length h.1)

theorem LooksAlike.lastLength_eq (h : LooksAlike a b) : lastLength a.segments = lastLength b.segments := by
  have hlast := congrArg List.getLast? h.1
  rw [nameLengths, nameLengths, List.getLast?_map, List.getLast?_map] at hlast
  rw [lastLength, lastLength]
  cases ha : a.segments.getLast? <;> cases hb : b.segments.getLast? <;> simp_all

theorem pathEq_equivalence : Equivalence fun a b => pathEq a b = true := by
  simp only [pathEq_eq_true_iff]
  refine ⟨fun a => ⟨rfl, rfl⟩, fun {a b} h => ⟨h.1.symm, ?_⟩, fun {a b c} h h' => ⟨h.1.trans h'.1, ?_⟩⟩
  · rw [← h.lastLength_eq]
    exact h.2.symm
  · have htext := h'.2
    rw [← h.lastLength_eq] at htext
    exact h.2.trans htext

/-- `operator==` on buffers in memory looks at the ends and at the text of their names. -/
theorem memory_pathEq {memory memory' : PathMemory.Buffer} (h : Represents memory a) (h' : Represents memory' b)
    (checks : Bool) :
    PathMemory.pathEq checks memory memory' = .ok (pathEq a b) := by
  rw [PathMemory.pathEq, pathEq, h.segCount, h'.segCount]
  by_cases hcount : a.segments.length = b.segments.length
  · rw [if_neg (not_not.mpr hcount), if_neg (not_not.mpr hcount)]
    by_cases hzero : a.segments.length = 0
    · rw [if_pos hzero, if_pos hzero]
    rw [if_neg hzero, if_neg hzero]
    have hread : ∀ {buffer : PathMemory.Buffer} {c : PathBuffer}, Represents buffer c →
      a.segments.length = c.segments.length →
        buffer.segEnds.read 0 a.segments.length = some (nameEnds 0 c.segments) := by
      intro buffer c hc hlength
      rw [hlength, Block.read_of_take hc.names.count_le hc.names.segEnds (Nat.zero_add _).le, List.drop_zero,
        List.take_of_length_le (length_nameEnds 0 _).le]
    rw [hread h rfl, inBounds_some, ok_bind, hread h' hcount, inBounds_some, ok_bind]
    by_cases hends : nameEnds 0 a.segments = nameEnds 0 b.segments
    · obtain ⟨name, hname⟩ : ∃ name, a.segments[a.segments.length - 1]? = some name :=
        ⟨_, List.getElem?_eq_getElem (Nat.sub_lt (Nat.pos_of_ne_zero hzero) Nat.one_pos)⟩
      have hlast : lastLength a.segments = name.bytes.length := by
        rw [lastLength, List.getLast?_eq_getElem?, hname]
        rfl
      have hsize : bufferSize a.segments = bufferSize b.segments := congrArg List.sum (nameEnds_eq_iff.mp hends)
      have hle : name.bytes.length ≤ bufferSize a.segments := by
        have hsucc := bufferSize_take_succ hname
        have hall := bufferSize_take_le a.segments (a.segments.length - 1 + 1)
        omega
      have htext : memory.data.read 0 name.bytes.length = some ((bufferText a.segments).take name.bytes.length) :=
        Block.read_of_take h.names.size_le h.names.data (by omega)
      have htext' : memory'.data.read 0 name.bytes.length = some ((bufferText b.segments).take name.bytes.length) :=
        Block.read_of_take h'.names.size_le h'.names.data (by omega)
      rw [if_neg (not_not.mpr hends), decide_eq_true hends, Bool.true_and, memory_segLength h hname, ok_bind, htext,
        inBounds_some, ok_bind,
        htext', inBounds_some, ok_bind, hlast]
      rfl
    · rw [if_pos hends, decide_eq_false hends, Bool.false_and]
  · rw [if_pos hcount, if_pos hcount]

/-! ### Paths -/

theorem Made.named (h : Made a) : a.Named := by
  induction h with
  | init hlength hinit => exact (named_pathInit hlength hinit).1
  | stripLast _ ih =>
      rw [pathStripLast]
      split_ifs
      · exact fun name hname => ih name (List.dropLast_subset _ hname)
      · exact ih
  | @concat buffer other result _ _ hconcat ih ih' =>
      rw [pathConcat] at hconcat
      split_ifs at hconcat
      · cases hconcat
        exact ih'
      · simp only [pathConcatImpl, Option.ite_none_right_eq_some, Option.some.injEq] at hconcat
        obtain ⟨-, rfl⟩ := hconcat
        intro name hname
        rcases List.mem_append.mp hname with hname | hname
        · exact ih name (List.mem_of_mem_take hname)
        · exact ih' name hname

/-- Of paths with 16-bit offsets the text says the names. -/
theorem Made.splitsAlike (ha : Made a) (hb : Made b) {aText : CString} (hformat : pathFormat a = some aText) :
    SplitsAlike a b := by
  intro htext
  have hbytes := pathFormat_text hformat
  have hwalk := (pathWalk_text ha.named hbytes).symm.trans (pathWalk_text hb.named (hbytes.trans htext))
  rw [Walk.mk.injEq] at hwalk
  rw [hwalk.2]

theorem eqIsSamePath_iff {aText bText : CString} (htype : a.type = b.type) (ha : pathFormat a = some aText)
    (hb : pathFormat b = some bText) :
    EqIsSamePath a b aText bText ↔ (LooksAlike a b → SamePath a b) ∧ SplitsAlike a b := by
  have htexts : aText = bText ↔ a.text = b.text := by
    rw [← pathFormat_text ha, ← pathFormat_text hb]
    exact ⟨congrArg CString.bytes, CString.ext_bytes⟩
  constructor
  · intro h
    have hformat := h.format
    rw [pathEq_eq_true_iff, htexts] at hformat
    refine ⟨fun hlooks => ?_, fun htext => (hformat.mpr htext).1⟩
    obtain ⟨hroot, hleading, hsegments⟩ := (text_eq_iff htype hlooks.1).mp (hformat.mp hlooks)
    refine ⟨?_, hroot, hleading, hsegments⟩
    by_contra habsolute
    rw [← pathEq_eq_true_iff, h.absolute habsolute] at hlooks
    cases hlooks
  · rintro ⟨hsame, hsplits⟩
    have hapart : ∀ {p : Prop}, (SamePath a b → p) → ¬p → pathEq a b = false := by
      intro p hp hnot
      rw [← Bool.not_eq_true, pathEq_eq_true_iff]
      exact fun hlooks => hnot (hp (hsame hlooks))
    refine ⟨?_, hapart SamePath.segments, hapart SamePath.absolute, hapart SamePath.leadingDotDots⟩
    rw [pathEq_eq_true_iff, htexts]
    constructor
    · intro hlooks
      have h := hsame hlooks
      exact (text_eq_iff htype hlooks.1).mpr ⟨h.showsRoot, h.leadingDotDots, h.segments⟩
    · intro htext
      have hlengths := hsplits htext
      obtain ⟨-, -, hsegments⟩ := (text_eq_iff htype hlengths).mp htext
      exact ⟨hlengths, by rw [hsegments]⟩

/-- `operator==` is equality of paths where paths that look alike to it are the same; it is an equivalence in
any case. Paths with 16-bit offsets that have the same text have names of the same lengths. -/
theorem pathEq_iff {aText bText : CString} (htype : a.type = b.type) (ha : pathFormat a = some aText)
    (hb : pathFormat b = some bText) :
    (EqIsSamePath a b aText bText ↔ (LooksAlike a b → SamePath a b) ∧ SplitsAlike a b) ∧
    (Made a → Made b → SplitsAlike a b) ∧
    (Equivalence fun a b => pathEq a b = true) ∧
    ∀ checks memory memory', Represents memory a → Represents memory' b →
    PathMemory.pathEq checks memory memory' = .ok (pathEq a b) :=
  ⟨eqIsSamePath_iff htype ha hb, fun hmade hmade' => hmade.splitsAlike hmade' ha, pathEq_equivalence,
    fun checks _ _ h h' => memory_pathEq h h' checks⟩

theorem pathEq_program : EqIsSamePath ⟨.unix, true, false, 0, [.lit "a", .lit "b"]⟩
    ⟨.unix, true, false, 0, [.lit "c", .lit "b"]⟩
    (.lit "/a/b") (.lit "/c/b") := by
  have hformat : pathFormat ⟨.unix, true, false, 0, [.lit "a", .lit "b"]⟩ = some (.lit "/a/b") := by decide
  have hformat' : pathFormat ⟨.unix, true, false, 0, [.lit "c", .lit "b"]⟩ = some (.lit "/c/b") := by decide
  exact (pathEq_iff (by rfl) hformat hformat').1.mpr ⟨fun h => absurd h (by decide), fun _ => by decide⟩

/-- `a/b` and `a/c`: only the first byte is compared. -/
theorem pathEq_last_segment : pathInit (.lit "a/b") .unix = some ⟨.unix, false, false, 0, [.lit "a", .lit "b"]⟩ ∧
    pathInit (.lit "a/c") .unix = some ⟨.unix, false, false, 0, [.lit "a", .lit "c"]⟩ ∧
    pathFormat ⟨.unix, false, false, 0, [.lit "a", .lit "b"]⟩ = some (.lit "a/b") ∧
    pathFormat ⟨.unix, false, false, 0, [.lit "a", .lit "c"]⟩ = some (.lit "a/c") ∧
    pathEq ⟨.unix, false, false, 0, [.lit "a", .lit "b"]⟩ ⟨.unix, false, false, 0, [.lit "a", .lit "c"]⟩ = true ∧
    ¬EqIsSamePath ⟨.unix, false, false, 0, [.lit "a", .lit "b"]⟩ ⟨.unix, false, false, 0, [.lit "a", .lit "c"]⟩
    (.lit "a/b") (.lit "a/c") := by
  have hequal : pathEq ⟨.unix, false, false, 0, [.lit "a", .lit "b"]⟩ ⟨.unix, false, false, 0, [.lit "a", .lit "c"]⟩ =
    true := by decide
  have hdiffer : CString.lit "a/b" ≠ .lit "a/c" := by decide
  exact ⟨by decide, by decide, by decide, by decide, hequal, fun h => hdiffer (h.format.mp hequal)⟩

end Tundra
