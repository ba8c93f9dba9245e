import Tundra.PathUtil.MemoryRefine
import Tundra.PathUtil.NormalForm

/-!
# What a path may write

`PathInit` looks at where a segment begins but not at where it ends, so that a segment that begins in `m_Data`
and ends behind it is copied over what comes next. `PathConcat` leaves both limits to `CHECK`. Up to there
everything stays in its array: a path that is not too long for its 16-bit offsets keeps its names, and
`PathFormat` stops in time, whatever the number of leading `..`.
-/

namespace Tundra

open Checked (MemoryFault inBounds ok_bind inBounds_some check_pos check_neg)

def pathSegments (path : CString) (type : PathType) : List PathSeg :=
  PathMemory.pathGetSegmentsFrom (pathRoot path type).2.2 (pathRoot path type).2.2.bytes 0 0

def retained (path : CString) (type : PathType) : List PathSeg := (dropDotDots (pathSegments path type)).2

/-- The bytes at the offset of a segment. -/
def segName (path : CString) (type : PathType) (seg : PathSeg) :
    CString := (pathRoot path type).2.2.slice seg.offset seg.len

def segsSize (segs : List PathSeg) : Nat := (segs.map PathSeg.len).sum

/-- No segment begins within `m_Data` and ends behind it. -/
def StraddleFree (pos : Nat) (segs : List PathSeg) : Prop :=
  ∀ front seg back, segs = front ++ seg :: back → pos + segsSize front < kMaxPathLength →
    pos + segsSize front + seg.len ≤ kMaxPathLength

/-- No segment begins behind `m_Data`. -/
def BeginsWithin (pos : Nat) (segs : List PathSeg) : Prop := segs = [] ∨ pos + segsSize segs.dropLast < kMaxPathLength

/-- A path that does not `Croak`. -/
def InitFits (path : CString) (type : PathType) : Prop :=
  (pathSegments path type).length ≤ kMaxPathSegments ∧ BeginsWithin 0 (retained path type)

/-- A path that is copied within `m_Data`, from offsets that are its segments'. -/
def InitHolds (path : CString) (type : PathType) : Prop :=
  (pathSegments path type).length ≤ kMaxPathSegments → StraddleFree 0 (retained path type) ∧
    (BeginsWithin 0 (retained path type) → (retained path type).map (segName path type) = (pathWalk path).names)

/-- What `PathInit` stores. -/
def initBuffer (path : CString) (type : PathType) : PathBuffer :=
  ⟨type, (pathRoot path type).1, (pathRoot path type).2.1, (dropDotDots (pathSegments path type)).1,
    (retained path type).map (segName path type)⟩

def concatNames (buffer other : PathBuffer) : List CString :=
  buffer.segments.take (throwAway buffer.minSegCount other.leadingDotDots
    (buffer.segments.length, buffer.leadingDotDots)).1 ++ other.segments

def ConcatFits (buffer other : PathBuffer) : Prop :=
  other.absolute = true ∨ ((concatNames buffer other).length ≤ kMaxPathSegments ∧
    bufferSize (concatNames buffer other) ≤ kMaxPathLength)

def segStart (memory : PathMemory.Buffer) (i : Nat) :
    Option Nat := if i = 0 then some 0 else memory.segEnds.cells[i - 1]?

def segText (memory : PathMemory.Buffer) (i : Nat) : Option (List UInt8) :=
  memory.segEnds.cells[i]?.bind fun segEnd => (segStart memory i).bind
    fun start => memory.data.read start (segEnd - start)

/-- A buffer whose segments are within bounds and have the texts of names. -/
structure Intact (memory : PathMemory.Buffer) (names : List CString) : Prop where
  segCount : memory.segCount = names.length
  count_le : memory.segCount ≤ kMaxPathSegments
  mono : (memory.segEnds.cells.take memory.segCount).Pairwise (· ≤ ·)
  ends_le : ∀ segEnd ∈ memory.segEnds.cells.take memory.segCount, segEnd ≤ kMaxPathLength
  text : ∀ i name, names[i]? = some name → segText memory i = some name.bytes

/-- A run that does not write outside an array, and has a good result if it has one. -/
def Safe {α : Type} (result : Except MemoryFault α) (good : α → Prop) :
    Prop := result ≠ .error .overrun ∧ ∀ a, result = .ok a → good a

/-- Path buffers are never overrun, with whatever was in memory before. -/
structure PathSafe (memory otherMemory : PathMemory.Buffer) (path otherPath : CString) (type otherType : PathType) :
    Prop where
  init : Safe (PathMemory.pathInit memory path type) fun buffer => Intact buffer (pathWalk path).names
  otherInit : Safe (PathMemory.pathInit otherMemory otherPath otherType)
    fun other => Intact other (pathWalk otherPath).names
  concat : ∀ {buffer other}, PathMemory.pathInit memory path type = .ok buffer →
    PathMemory.pathInit otherMemory otherPath otherType = .ok other →
    ∀ checks, Safe (PathMemory.pathConcat checks buffer other) fun result =>
      ∃ n, Intact result ((if other.absolute then [] else (pathWalk path).names.take n) ++ (pathWalk otherPath).names)
  format : ∀ {buffer}, PathMemory.pathInit memory path type = .ok buffer → ∀ checks output,
    Safe (PathMemory.pathFormat checks output buffer) fun cursor => cursor.pos ≤ kMaxPathLength
  formatConcat : ∀ {buffer other result} {checks : Bool}, PathMemory.pathInit memory path type = .ok buffer →
    PathMemory.pathInit otherMemory otherPath otherType = .ok other →
      PathMemory.pathConcat checks buffer other = .ok result →
    ∀ output, Safe (PathMemory.pathFormat checks output result) fun cursor => cursor.pos ≤ kMaxPathLength

variable {path : CString} {type : PathType} {pos : Nat} {segs : List PathSeg}

/-! ### Segments -/

theorem toNat_bmod_le (n : Nat) : ((n : Int).bmod (2 ^ 32)).toNat ≤ n := by
  rw [Int.bmod_def]
  split_ifs <;> omega

/-- A segment lies in its path, even where its offset and its length are narrowed. -/
theorem length_slice_pathSeg {last pos : Nat} (hlast : last ≤ pos) (hpos : pos ≤ path.bytes.length) {seg : PathSeg}
    (h : seg ∈ PathMemory.pathSeg path last pos) : (path.slice seg.offset seg.len).bytes.length = seg.len := by
  unfold PathMemory.pathSeg at h
  simp only at h
  split_ifs at h
  · have hle := toNat_bmod_le (pos - last)
    obtain rfl := List.mem_singleton.mp h
    refine length_slice ?_
    simp only
    omega
  · cases h

theorem length_slice_pathGetSegmentsFrom {rest : List UInt8} {last pos : Nat} (hlast : last ≤ pos)
    (hpos : pos + rest.length = path.bytes.length) {seg : PathSeg}
    (h : seg ∈ PathMemory.pathGetSegmentsFrom path rest last pos) :
    (path.slice seg.offset seg.len).bytes.length = seg.len := by
  induction rest generalizing last pos with
  | nil => exact length_slice_pathSeg hlast (by simpa using hpos.le) h
  | cons ch rest ih =>
      rw [List.length_cons] at hpos
      rw [PathMemory.pathGetSegmentsFrom] at h
      split_ifs at h
      · rcases List.mem_append.mp h with h | h
        · exact length_slice_pathSeg hlast (by omega) h
        · exact ih (Nat.le_refl (pos + 1)) (by omega) h
      · exact ih (show last ≤ pos + 1 by omega) (by omega) h

theorem dropDotDots_sublist (segs : List PathSeg) : (dropDotDots segs).2.Sublist segs := by
  induction segs with
  | nil => exact List.Sublist.refl _
  | cons seg segs ih =>
      rw [dropDotDots_cons]
      split_ifs
      · exact ih.cons seg
      · exact ih.cons seg
      · exact ih.cons seg
      · exact ih.cons_cons seg

theorem length_segName {seg : PathSeg} (h : seg ∈ retained path type) :
    (segName path type seg).bytes.length = seg.len :=
  length_slice_pathGetSegmentsFrom (Nat.le_refl 0) (Nat.zero_add _) ((dropDotDots_sublist _).subset h)

/-! ### Copying -/

def copyFault : Nat → List PathSeg → Option MemoryFault
  | _, [] => none
  | pos, seg :: segs =>
      if pos ≥ kMaxPathLength then some .croak else if pos + seg.len > kMaxPathLength then some .overrun
        else copyFault (pos + seg.len) segs

theorem segsSize_cons (seg : PathSeg) (segs : List PathSeg) : segsSize (seg :: segs) = seg.len + segsSize segs := by
  rw [segsSize, List.map_cons, List.sum_cons, segsSize]

theorem straddleFree_cons {seg : PathSeg} : StraddleFree pos (seg :: segs) ↔
    (pos < kMaxPathLength → pos + seg.len ≤ kMaxPathLength) ∧ StraddleFree (pos + seg.len) segs := by
  constructor
  · intro h
    refine ⟨h [] seg segs rfl, fun front seg' back hsegs hbegin => ?_⟩
    have hnext := h (seg :: front) seg' back (by rw [hsegs]; rfl)
    rw [segsSize_cons, ← Nat.add_assoc] at hnext
    exact hnext hbegin
  · rintro ⟨hfirst, hrest⟩ front seg' back hsegs hbegin
    cases front with
    | nil =>
        obtain ⟨rfl, -⟩ := List.cons_eq_cons.mp hsegs
        exact hfirst hbegin
    | cons seg'' front =>
        obtain ⟨rfl, htail⟩ := List.cons_eq_cons.mp hsegs
        rw [segsSize_cons, ← Nat.add_assoc] at hbegin ⊢
        exact hrest front seg' back htail hbegin

theorem straddleFree_of_le (h : kMaxPathLength ≤ pos) : StraddleFree pos segs := by
  intro front seg back _ hbegin
  omega

theorem copyFault_ne_overrun_iff : copyFault pos segs ≠ some .overrun ↔ StraddleFree pos segs := by
  induction segs generalizing pos with
  | nil => exact iff_of_true nofun fun front seg back h => absurd h (by simp)
  | cons seg segs ih =>
      rw [copyFault, straddleFree_cons]
      split_ifs with hcroak hoverrun
      · exact iff_of_true nofun ⟨fun hpos => absurd hpos (by omega), straddleFree_of_le (by omega)⟩
      · exact iff_of_false (fun h => h rfl) fun h => absurd (h.1 (by omega)) (by omega)
      · rw [ih]
        exact ⟨fun h => ⟨fun _ => by omega, h⟩, And.right⟩

theorem beginsWithin_cons {seg : PathSeg} :
    BeginsWithin pos (seg :: segs) ↔ pos < kMaxPathLength ∧ BeginsWithin (pos + seg.len) segs := by
  cases segs with
  | nil => simp [BeginsWithin, segsSize]
  | cons seg' segs =>
      simp only [BeginsWithin, reduceCtorEq, false_or, List.dropLast_cons_cons, segsSize_cons]
      omega

theorem copyFault_eq_none_iff (h : StraddleFree pos segs) : copyFault pos segs = none ↔ BeginsWithin pos segs := by
  induction segs generalizing pos with
  | nil => exact iff_of_true rfl (.inl rfl)
  | cons seg segs ih =>
      obtain ⟨hfirst, hrest⟩ := straddleFree_cons.mp h
      rw [copyFault, beginsWithin_cons]
      split_ifs with hcroak hoverrun
      · exact iff_of_false nofun fun hbegin => absurd hbegin.1 (by omega)
      · exact absurd (hfirst (by omega)) (by omega)
      · rw [ih hrest]
        exact ⟨fun hbegin => ⟨by omega, hbegin⟩, And.right⟩

theorem copySegments_cons (rest : CString) (seg : PathSeg) (segs : List PathSeg) (output : PathMemory.Output) :
    PathMemory.copySegments rest (seg :: segs) output =
      if output.pos ≥ kMaxPathLength then .error .croak
      else inBounds (output.data.write output.pos (rest.slice seg.offset seg.len).bytes) >>= fun data =>
        inBounds (output.segEnds.write output.segCount [(output.pos + seg.len) % 2 ^ 16]) >>= fun segEnds =>
          PathMemory.copySegments rest segs ⟨segEnds, data, output.segCount + 1, (output.pos + seg.len) % 2 ^ 16⟩ := rfl

theorem memory_copySegments {rest : CString} (output : PathMemory.Output) {names : List CString}
    (hslice : ∀ seg ∈ segs, (rest.slice seg.offset seg.len).bytes.length = seg.len)
    (h : HoldsNames output.segEnds output.data names) (hcount : output.segCount = names.length)
    (hpos : output.pos = bufferSize names) (hlimit : names.length + segs.length ≤ kMaxPathSegments) :
    (∀ fault, copyFault (bufferSize names) segs = some fault →
    PathMemory.copySegments rest segs output = .error fault) ∧
    (copyFault (bufferSize names) segs = none → ∃ output', PathMemory.copySegments rest segs output = .ok output' ∧
      HoldsNames output'.segEnds output'.data (names ++ segs.map fun seg => rest.slice seg.offset seg.len) ∧
      output'.segCount = names.length + segs.length) := by
  induction segs generalizing output names with
  | nil =>
      refine ⟨fun fault hfault => (by cases hfault), fun _ => ⟨output, rfl, ?_, hcount⟩⟩
      rw [List.map_nil, List.append_nil]
      exact h
  | cons seg segs ih =>
      rw [List.length_cons] at hlimit
      have hlength := hslice seg List.mem_cons_self
      set name := rest.slice seg.offset seg.len with hname
      have htext : bufferText [name] = name.bytes := List.flatMap_singleton _ _
      rw [copySegments_cons, copyFault, hpos, ← hname]
      by_cases hcroak : bufferSize names ≥ kMaxPathLength
      · rw [if_pos hcroak, if_pos hcroak]
        exact ⟨fun fault hfault => congrArg _ (Option.some.inj hfault), fun hnone => by cases hnone⟩
      rw [if_neg hcroak, if_neg hcroak]
      by_cases hoverrun : bufferSize names + seg.len > kMaxPathLength
      · have hdata : output.data.write (bufferSize names) name.bytes = none :=
          Block.write_eq_none (by rw [hlength]; omega)
        rw [if_pos hoverrun, hdata]
        exact ⟨fun fault hfault => congrArg _ (Option.some.inj hfault), fun hnone => by cases hnone⟩
      rw [if_neg hoverrun]
      obtain ⟨data, hdata⟩ := Block.write_isSome output.data
        (show bufferSize names + name.bytes.length ≤ kMaxPathLength by omega)
      have hsize : bufferSize (names ++ [name]) = bufferSize names + seg.len := by
        rw [bufferSize_append, bufferSize_cons, hlength]
        rfl
      have hmod : (bufferSize names + seg.len) % 2 ^ 16 = bufferSize (names ++ [name]) := by
        rw [hsize]
        rw [kMaxPathLength] at hoverrun
        exact Nat.mod_eq_of_lt (by omega)
      have hroom : names.length + [bufferSize (names ++ [name])].length ≤ kMaxPathSegments := by
        rw [List.length_singleton]
        omega
      obtain ⟨segEnds, hends⟩ := Block.write_isSome output.segEnds hroom
      have htake := Block.take_write hends
      have hholds : HoldsNames segEnds data (names ++ [name]) := by
        refine h.append (by rw [List.length_singleton]; omega) (by rw [htext]; exact hdata) ?_
        rw [List.length_singleton] at htake ⊢
        rw [htake, nameEnds, nameEnds, hsize, hlength]
      rw [hdata, inBounds, ok_bind, hmod, hcount, hends, inBounds, ok_bind, ← hsize]
      have hrest := ih ⟨segEnds, data, names.length + 1, bufferSize (names ++ [name])⟩
        (fun seg' hseg' => hslice seg' (List.mem_cons_of_mem seg hseg')) hholds
          (by rw [List.length_append, List.length_singleton]) rfl
        (by rw [List.length_append, List.length_singleton]; omega)
      rw [List.append_assoc, List.length_append, List.length_singleton] at hrest
      rw [List.map_cons, List.length_cons, ← hname, Nat.add_comm segs.length 1, ← Nat.add_assoc]
      exact hrest

theorem initFault_of_count (memory : PathMemory.Buffer) (h : kMaxPathSegments < (pathSegments path type).length) :
    PathMemory.pathInit memory path type = .error .croak := by
  have hsegments : PathMemory.pathGetSegments (pathRoot path type).2.2 = .error .croak := if_pos h
  rw [PathMemory.pathInit]
  simp only [hsegments]
  rfl

theorem memory_pathInit (memory : PathMemory.Buffer) (h : (pathSegments path type).length ≤ kMaxPathSegments) :
    (∀ fault, copyFault 0 (retained path type) = some fault → PathMemory.pathInit memory path type = .error fault) ∧
    (copyFault 0 (retained path type) = none →
      ∃ buffer, PathMemory.pathInit memory path type = .ok buffer ∧ Represents buffer (initBuffer path type)) := by
  have hsegments : PathMemory.pathGetSegments (pathRoot path type).2.2 = .ok (pathSegments path type) :=
    if_neg (Nat.not_lt.mpr h)
  have hcount := (dropDotDots_sublist (pathSegments path type)).length_le
  obtain ⟨hfault, hnone⟩ := memory_copySegments ⟨memory.segEnds, memory.data, 0, 0⟩
    (fun seg hseg => length_segName hseg)
    (.nil memory.segEnds memory.data) rfl rfl (by rw [List.length_nil, Nat.zero_add]; exact hcount.trans h)
  have hinit : PathMemory.pathInit memory path type =
      (PathMemory.copySegments (pathRoot path type).2.2 (retained path type) ⟨memory.segEnds, memory.data, 0, 0⟩).bind
        fun output =>
        .ok ⟨type, (pathRoot path type).1, (pathRoot path type).2.1, output.segCount,
          (dropDotDots (pathSegments path type)).1, output.segEnds,
          output.data⟩ := by
    rw [PathMemory.pathInit]
    simp only [hsegments]
    rfl
  rw [hinit]
  refine ⟨fun fault hcopy => ?_, fun hcopy => ?_⟩
  · rw [hfault fault hcopy]
    rfl
  · obtain ⟨output, hok, hholds, hsegCount⟩ := hnone hcopy
    rw [hok]
    refine ⟨_, rfl, rfl, rfl, rfl, ?_, rfl, hholds⟩
    simp only [hsegCount, initBuffer, List.length_map, List.length_nil, Nat.zero_add]

/-! ### Buffers within bounds -/

theorem pairwise_nameEnds (pos : Nat) (names : List CString) :
    (nameEnds pos names).Pairwise (· ≤ ·) ∧ ∀ segEnd ∈ nameEnds pos names, pos ≤ segEnd ∧
    segEnd ≤ pos + bufferSize names := by
  induction names generalizing pos with
  | nil => exact ⟨.nil, fun segEnd h => by cases h⟩
  | cons name names ih =>
      obtain ⟨hpairwise, hbounds⟩ := ih (pos + name.bytes.length)
      rw [nameEnds, bufferSize_cons]
      refine ⟨List.pairwise_cons.mpr ⟨fun segEnd h => (hbounds segEnd h).1, hpairwise⟩, fun segEnd h => ?_⟩
      rcases List.mem_cons.mp h with rfl | h
      · omega
      · have := hbounds segEnd h
        omega

theorem Represents.segText_eq {memory : PathMemory.Buffer} {buffer : PathBuffer} (h : Represents memory buffer)
    {i : Nat} {name : CString} (hname : buffer.segments[i]? = some name) : segText memory i = some name.bytes := by
  obtain ⟨hi, -⟩ := List.getElem?_eq_some_iff.mp hname
  have hsucc := bufferSize_take_succ hname
  have hstart : segStart memory i = some (bufferSize (buffer.segments.take i)) := by
    rw [segStart]
    split_ifs with hzero
    · rw [hzero]
      rfl
    · rw [h.names.getElem?_segEnds (by omega), Nat.sub_add_cancel (by omega)]
  have hlength : bufferSize (buffer.segments.take i) + name.bytes.length - bufferSize (buffer.segments.take i) =
    name.bytes.length :=
    Nat.add_sub_cancel_left _ _
  rw [segText, h.names.getElem?_segEnds hi, Option.bind_some, hstart, Option.bind_some, hsucc, hlength,
    h.names.read_data hname]

theorem Represents.intact {memory : PathMemory.Buffer} {buffer : PathBuffer} (h : Represents memory buffer) :
    Intact memory buffer.segments := by
  obtain ⟨hpairwise, hbounds⟩ := pairwise_nameEnds 0 buffer.segments
  have hsize := h.names.size_le
  refine ⟨h.segCount, h.segCount.trans_le h.names.count_le, ?_, ?_, fun i name hname => h.segText_eq hname⟩
  · rw [h.segCount, h.names.segEnds]
    exact hpairwise
  · rw [h.segCount, h.names.segEnds]
    intro segEnd hsegEnd
    have := hbounds segEnd hsegEnd
    omega

theorem Intact.names_eq {memory : PathMemory.Buffer} {names names' : List CString} (h : Intact memory names)
    (h' : Intact memory names') :
    names = names' := by
  have hlength : names.length = names'.length := h.segCount.symm.trans h'.segCount
  refine List.ext_getElem hlength fun i hi hi' => ?_
  have htext := h.text i names[i] (List.getElem?_eq_getElem hi)
  have htext' := h'.text i names'[i] (List.getElem?_eq_getElem hi')
  rw [htext, Option.some.injEq] at htext'
  exact CString.ext_bytes htext'

/-! ### Runs -/

section Runs

variable (memory otherMemory : PathMemory.Buffer) {otherPath : CString} {otherType : PathType}

theorem represents_of_pathInit {buffer : PathMemory.Buffer} (h : PathMemory.pathInit memory path type = .ok buffer) :
    (pathSegments path type).length ≤ kMaxPathSegments ∧ copyFault 0 (retained path type) = none ∧
      Represents buffer (initBuffer path type) := by
  by_cases hcount : (pathSegments path type).length ≤ kMaxPathSegments
  · obtain ⟨hfault, hnone⟩ := memory_pathInit memory hcount
    cases hcopy : copyFault 0 (retained path type) with
    | some fault =>
        rw [hfault fault hcopy] at h
        cases h
    | none =>
        obtain ⟨buffer', hinit, hrepresents⟩ := hnone hcopy
        rw [h, Except.ok.injEq] at hinit
        exact ⟨hcount, rfl, hinit ▸ hrepresents⟩
  · rw [initFault_of_count memory (by omega)] at h
    cases h

theorem pathInit_isOk (hfits : InitFits path type) (hholds : InitHolds path type) :
    ∃ buffer, PathMemory.pathInit memory path type = .ok buffer ∧ Represents buffer (initBuffer path type) := by
  have hcopy := (copyFault_eq_none_iff (hholds hfits.1).1).mpr hfits.2
  exact (memory_pathInit memory hfits.1).2 hcopy

theorem segments_of_pathInit (hholds : InitHolds path type) {buffer : PathMemory.Buffer}
    (h : PathMemory.pathInit memory path type = .ok buffer) :
    InitFits path type ∧ (initBuffer path type).segments = (pathWalk path).names := by
  obtain ⟨hcount, hcopy, -⟩ := represents_of_pathInit memory h
  obtain ⟨hstraddle, hnames⟩ := hholds hcount
  have hbegin := (copyFault_eq_none_iff hstraddle).mp hcopy
  exact ⟨⟨hcount, hbegin⟩, hnames hbegin⟩

/-- `PathInit` is safe if no segment straddles the end of `m_Data` and the offsets are those of the segments. -/
theorem pathInit_safe_iff :
    Safe (PathMemory.pathInit memory path type) (fun buffer => Intact buffer (pathWalk path).names) ↔
    InitHolds path type := by
  constructor
  · rintro ⟨hoverrun, hgood⟩ hcount
    obtain ⟨hfault, hnone⟩ := memory_pathInit memory hcount
    have hstraddle : StraddleFree 0 (retained path type) := by
      rw [← copyFault_ne_overrun_iff]
      exact fun hcopy => hoverrun (hfault _ hcopy)
    refine ⟨hstraddle, fun hbegin => ?_⟩
    obtain ⟨buffer, hinit, hrepresents⟩ := hnone ((copyFault_eq_none_iff hstraddle).mpr hbegin)
    exact hrepresents.intact.names_eq (hgood buffer hinit)
  · intro hholds
    refine ⟨fun hoverrun => ?_, fun buffer hinit => ?_⟩
    · by_cases hcount : (pathSegments path type).length ≤ kMaxPathSegments
      · obtain ⟨hfault, hnone⟩ := memory_pathInit memory hcount
        cases hcopy : copyFault 0 (retained path type) with
        | some fault =>
            rw [hfault fault hcopy, Except.error.injEq] at hoverrun
            exact copyFault_ne_overrun_iff.mpr (hholds hcount).1 (hoverrun ▸ hcopy)
        | none =>
            obtain ⟨buffer, hinit, -⟩ := hnone hcopy
            rw [hinit] at hoverrun
            cases hoverrun
      · rw [initFault_of_count memory (by omega)] at hoverrun
        cases hoverrun
    · obtain ⟨-, -, hrepresents⟩ := represents_of_pathInit memory hinit
      rw [← (segments_of_pathInit memory hholds hinit).2]
      exact hrepresents.intact

theorem initBuffer_leadingDotDots (h : (pathSegments path type).length ≤ kMaxPathSegments) :
    (initBuffer path type).leadingDotDots ≤ kMaxPathSegments :=
  (dropDotDots_le _).trans h

theorem pathConcat_eq_none_iff {buffer other : PathBuffer} :
    pathConcat buffer other = none ↔ ¬ConcatFits buffer other := by
  rw [pathConcat, ConcatFits]
  by_cases habsolute : other.absolute = true
  · rw [if_pos habsolute]
    exact iff_of_false (by simp) fun h => h (.inl habsolute)
  · have himpl : pathConcatImpl buffer other = none ↔
        ¬((concatNames buffer other).length ≤ kMaxPathSegments ∧
          bufferSize (concatNames buffer other) ≤ kMaxPathLength) := by
      simp only [pathConcatImpl, concatNames, ite_eq_right_iff, reduceCtorEq, imp_false, Bool.and_eq_true,
        decide_eq_true_eq]
    rw [if_neg habsolute, himpl, or_iff_right habsolute]

theorem segments_pathConcat {buffer other result : PathBuffer} (h : pathConcat buffer other = some result) :
    ∃ n, result.segments = (if other.absolute then [] else buffer.segments.take n) ++ other.segments := by
  rw [pathConcat] at h
  split_ifs at h with habsolute
  · cases h
    exact ⟨0, by rw [if_pos habsolute, List.nil_append]⟩
  · simp only [pathConcatImpl, Option.ite_none_right_eq_some, Option.some.injEq] at h
    obtain ⟨-, rfl⟩ := h
    exact ⟨_, by rw [if_neg habsolute]⟩

theorem pathFormat_safe {buffer : PathMemory.Buffer} {path : PathBuffer} (h : Represents buffer path)
    (hdots : path.leadingDotDots ≤ 2 * kMaxPathSegments) (checks : Bool) (output : Block UInt8 kMaxPathLength) :
    Safe (PathMemory.pathFormat checks output buffer) fun cursor => cursor.pos ≤ kMaxPathLength := by
  obtain ⟨hsome, hnone⟩ := memory_pathFormat checks h hdots output
  cases hformat : pathFormat path with
  | none =>
      rw [hnone hformat]
      exact ⟨nofun, nofun⟩
  | some text =>
      obtain ⟨cursor, hcursor, hwritten⟩ := hsome text hformat
      have hlength := pathFormat_length hdots hformat
      rw [hcursor]
      refine ⟨nofun, fun cursor' hcursor' => ?_⟩
      cases hcursor'
      rw [hwritten.pos, List.length_append, List.length_singleton]
      exact hlength

theorem memory_pathConcat_isOk (hconcat : ConcatFits (initBuffer path type) (initBuffer otherPath otherType))
    (checks : Bool) {buffer other : PathMemory.Buffer} (hinit : PathMemory.pathInit memory path type = .ok buffer)
    (hinit' : PathMemory.pathInit otherMemory otherPath otherType = .ok other) :
    ∃ result memory', pathConcat (initBuffer path type) (initBuffer otherPath otherType) = some result ∧
      PathMemory.pathConcat checks buffer other = .ok memory' ∧ Represents memory' result ∧
      result.leadingDotDots ≤ 2 * kMaxPathSegments := by
  obtain ⟨hcount, -, hrepresents⟩ := represents_of_pathInit memory hinit
  obtain ⟨hcount', -, hrepresents'⟩ := represents_of_pathInit otherMemory hinit'
  have hdots := initBuffer_leadingDotDots hcount
  have hdots' := initBuffer_leadingDotDots hcount'
  have hlimit : 2 * kMaxPathSegments < 2 ^ 16 := by decide
  obtain ⟨hsome, -⟩ := memory_pathConcat checks hrepresents hrepresents' (by omega)
  obtain ⟨result, hresult⟩ := Option.ne_none_iff_exists'.mp fun hnone => pathConcat_eq_none_iff.mp hnone hconcat
  obtain ⟨memory', hok, hrepresents''⟩ := hsome result hresult
  have hdots'' := pathConcat_leadingDotDots hresult
  exact ⟨result, memory', hresult, hok, hrepresents'', by omega⟩

end Runs

/-! ### Paths with 16-bit offsets -/

theorem pathSeg_memory (hlength : path.bytes.length < 2 ^ 16) {last pos : Nat} (hlast : last ≤ pos)
    (hpos : pos ≤ path.bytes.length) :
    PathMemory.pathSeg path last pos = pathSeg path last pos := by
  have hmod : ((pos - last : Nat) : Int).bmod (2 ^ 32) = (pos - last : Nat) := by
    rw [Int.bmod_def]
    split_ifs <;> omega
  have hslice : (path.slice last (pos - last)).bytes.length = pos - last := length_slice (by omega)
  have hflag : ∀ name : List UInt8, ((name.length : Int) = (pos - last : Nat) ∧
    (path.slice last name.length).bytes = name) ↔
      (path.slice last (pos - last)).bytes = name := by
    intro name
    constructor
    · rintro ⟨hlen, hname⟩
      rw [← Int.ofNat_inj.mp hlen]
      exact hname
    · intro hname
      rw [hname] at hslice
      rw [hslice]
      exact ⟨rfl, hname⟩
  have hdotdot : ((2 : Int) = (pos - last : Nat) ∧ (path.slice last 2).bytes = [46, 46]) ↔ _ := hflag [46, 46]
  have hdot : ((1 : Int) = (pos - last : Nat) ∧ (path.slice last 1).bytes = [46]) ↔ _ := hflag [46]
  unfold PathMemory.pathSeg pathSeg
  simp only [hmod, Int.toNat_natCast, hdotdot, hdot]
  by_cases hzero : pos - last = 0
  · rw [if_pos hzero, if_neg (by omega)]
  · rw [if_neg hzero, if_pos (by omega)]

theorem pathGetSegmentsFrom_memory (hlength : path.bytes.length < 2 ^ 16) {rest : List UInt8} {last pos : Nat}
    (hlast : last ≤ pos) (hpos : pos + rest.length = path.bytes.length) :
    PathMemory.pathGetSegmentsFrom path rest last pos = pathGetSegmentsFrom path rest last pos := by
  induction rest generalizing last pos with
  | nil => exact pathSeg_memory hlength hlast (by simpa using hpos.le)
  | cons ch rest ih =>
      rw [List.length_cons] at hpos
      rw [PathMemory.pathGetSegmentsFrom, pathGetSegmentsFrom, pathSeg_memory hlength hlast (by omega),
        ih (Nat.le_refl (pos + 1)) (by omega),
        ih (show last ≤ pos + 1 by omega) (by omega)]

theorem segOf_retained (hlength : path.bytes.length < 2 ^ 16) (type : PathType) :
    (pathSegments path type).length = (pathNames path).length ∧
    (dropDotDots (pathSegments path type)).1 = (pathWalk path).ups ∧
      List.Forall₂ (SegOf (pathRoot path type).2.2) (retained path type) (pathWalk path).names := by
  obtain ⟨hnames, hle⟩ := pathNames_root path type
  have hrest := lt_of_le_of_lt hle hlength
  have hsegs := segOf_pathGetSegments hrest
  rw [hnames, ← pathGetSegmentsFrom_memory hrest (Nat.le_refl 0) (Nat.zero_add _)] at hsegs
  exact ⟨hsegs.length_eq, dropDotDots_walk SegOf.toFlagsOf hsegs⟩

theorem forall₂_segOf {rest : CString} {names : List CString} (h : List.Forall₂ (SegOf rest) segs names) :
    segs.map (fun seg => rest.slice seg.offset seg.len) = names ∧
    segs.map PathSeg.len = names.map fun name => name.bytes.length := by
  induction h with
  | nil => exact ⟨rfl, rfl⟩
  | cons hseg _ ih => exact ⟨congrArg₂ List.cons hseg.slice ih.1, congrArg₂ List.cons hseg.len ih.2⟩

theorem forall_split_map {α β : Type} (f : α → β) (P : List β → β → Prop) (xs : List α) :
    (∀ front x back, xs = front ++ x :: back → P (front.map f) (f x)) ↔
    ∀ front y back, xs.map f = front ++ y :: back → P front y := by
  constructor
  · intro h front y back hmap
    obtain ⟨front', rest, rfl, rfl, hrest⟩ := List.map_eq_append_iff.mp hmap
    obtain ⟨x, back', rfl, rfl, -⟩ := List.map_eq_cons_iff.mp hrest
    exact h front' x back' rfl
  · rintro h front x back rfl
    exact h (front.map f) (f x) (back.map f) (by rw [List.map_append, List.map_cons])

theorem pathInit_eq_initBuffer (hlength : path.bytes.length < 2 ^ 16) (type : PathType) :
    initBuffer path type = ⟨type, (pathRoot path type).1, (pathRoot path type).2.1, (pathWalk path).ups,
    (pathWalk path).names⟩ := by
  obtain ⟨-, hups, hretained⟩ := segOf_retained hlength type
  rw [initBuffer, hups]
  exact congrArg _ (forall₂_segOf hretained).1

/-- Up to 65535 bytes, it only matters that no name straddles the end of `m_Data`. -/
theorem initHolds_iff (hlength : path.bytes.length < 2 ^ 16) (type : PathType) : InitHolds path type ↔
    ((pathNames path).length ≤ kMaxPathSegments → ∀ front name back, (pathWalk path).names = front ++ name :: back →
      bufferSize front < kMaxPathLength → bufferSize front + name.bytes.length ≤ kMaxPathLength) := by
  obtain ⟨hcount, -, hretained⟩ := segOf_retained hlength type
  obtain ⟨hnames, hlens⟩ := forall₂_segOf hretained
  have hstraddle : StraddleFree 0 (retained path type) ↔
    ∀ front name back, (pathWalk path).names = front ++ name :: back →
      bufferSize front < kMaxPathLength → bufferSize front + name.bytes.length ≤ kMaxPathLength := by
    have hsegs := forall_split_map PathSeg.len
      (fun front len => front.sum < kMaxPathLength → front.sum + len ≤ kMaxPathLength)
      (retained path type)
    have hwalk := forall_split_map (fun name => name.bytes.length)
      (fun front len => front.sum < kMaxPathLength → front.sum + len ≤ kMaxPathLength) (pathWalk path).names
    rw [hlens] at hsegs
    simp only [StraddleFree, segsSize, bufferSize, Nat.zero_add]
    exact hsegs.trans hwalk.symm
  rw [InitHolds, hcount, ← hstraddle]
  exact ⟨fun h hcount' => (h hcount').1, fun h hcount' => ⟨h hcount', fun _ => hnames⟩⟩

/-- Path buffers are never overrun if and only if no retained segment straddles the end of `m_Data`, the offsets
of both paths are those of their segments, and what is concatenated fits. Up to 65535 bytes, this is a matter of
the names the paths come to. -/
theorem pathSafe_iff (memory otherMemory : PathMemory.Buffer) (path otherPath : CString) (type otherType : PathType) :
    (PathSafe memory otherMemory path otherPath type otherType ↔ InitHolds path type ∧ InitHolds otherPath otherType ∧
      (InitFits path type → InitFits otherPath otherType → ConcatFits (initBuffer path type) (initBuffer otherPath otherType))) ∧
    ∀ path : CString, path.bytes.length < 2 ^ 16 → ∀ type,
      initBuffer path type = ⟨type, (pathRoot path type).1, (pathRoot path type).2.1, (pathWalk path).ups,
      (pathWalk path).names⟩ ∧
      (InitHolds path type ↔ ((pathNames path).length ≤ kMaxPathSegments →
      ∀ front name back, (pathWalk path).names = front ++ name :: back →
        bufferSize front < kMaxPathLength → bufferSize front + name.bytes.length ≤ kMaxPathLength)) := by
  refine ⟨?_, fun path hlength type => ⟨pathInit_eq_initBuffer hlength type, initHolds_iff hlength type⟩⟩
  constructor
  · intro h
    have hholds := (pathInit_safe_iff memory).mp h.init
    have hholds' := (pathInit_safe_iff otherMemory).mp h.otherInit
    refine ⟨hholds, hholds', fun hfits hfits' => ?_⟩
    obtain ⟨buffer, hinit, hrepresents⟩ := pathInit_isOk memory hfits hholds
    obtain ⟨other, hinit', hrepresents'⟩ := pathInit_isOk otherMemory hfits' hholds'
    have hdots := initBuffer_leadingDotDots hfits.1
    have hdots' := initBuffer_leadingDotDots hfits'.1
    have hlimit : 2 * kMaxPathSegments < 2 ^ 16 := by decide
    by_contra hlong
    -- without the checks, what does not fit is written behind the arrays
    have hnone := (memory_pathConcat false hrepresents hrepresents' (by omega)).2 (pathConcat_eq_none_iff.mpr hlong)
    exact (h.concat hinit hinit' false).1 hnone
  · rintro ⟨hholds, hholds', hconcat⟩
    refine ⟨(pathInit_safe_iff memory).mpr hholds, (pathInit_safe_iff otherMemory).mpr hholds',
      fun hinit hinit' checks => ?_,
      fun hinit checks output => ?_, fun {buffer other memory' checks} hinit hinit' hok output => ?_⟩
    · obtain ⟨hfits, hnames⟩ := segments_of_pathInit memory hholds hinit
      obtain ⟨hfits', hnames'⟩ := segments_of_pathInit otherMemory hholds' hinit'
      obtain ⟨-, -, hrepresents'⟩ := represents_of_pathInit otherMemory hinit'
      obtain ⟨result, memory', hresult, hok, hrepresents, -⟩ :=
        memory_pathConcat_isOk memory otherMemory (hconcat hfits hfits') checks hinit hinit'
      obtain ⟨n, hsegments⟩ := segments_pathConcat hresult
      rw [hok]
      refine ⟨nofun, fun memory'' hmemory => ⟨n, ?_⟩⟩
      cases hmemory
      rw [hrepresents'.absolute, ← hnames, ← hnames', ← hsegments]
      exact hrepresents.intact
    · obtain ⟨hcount, -, hrepresents⟩ := represents_of_pathInit memory hinit
      have hdots := initBuffer_leadingDotDots hcount
      exact pathFormat_safe hrepresents (by omega) checks output
    · obtain ⟨hfits, -⟩ := segments_of_pathInit memory hholds hinit
      obtain ⟨hfits', -⟩ := segments_of_pathInit otherMemory hholds' hinit'
      obtain ⟨result, memory'', -, hok', hrepresents, hdots⟩ :=
        memory_pathConcat_isOk memory otherMemory (hconcat hfits hfits') checks hinit hinit'
      rw [hok, Except.ok.injEq] at hok'
      subst hok'
      exact pathFormat_safe hrepresents hdots checks output

/-! ### Long names -/

theorem pathInit_long_name {name : CString} (hname : IsName name) (hlong : kMaxPathLength < name.bytes.length)
    (hlength : name.bytes.length < 2 ^ 16) (memory : PathMemory.Buffer) (type : PathType) :
    PathMemory.pathInit memory name type = .error .overrun := by
  obtain ⟨hcount, -, hretained⟩ := segOf_retained hlength type
  have hlens := (forall₂_segOf hretained).2
  rw [pathNames_leaf hname, List.length_singleton] at hcount
  rw [pathWalk_leaf hname] at hretained hlens
  obtain ⟨seg, hseg⟩ := List.length_eq_one_iff.mp hretained.length_eq
  rw [hseg, List.map_singleton, List.map_singleton, List.singleton_inj] at hlens
  have hlimit : 0 < kMaxPathLength := by decide
  have hlimit' : 1 ≤ kMaxPathSegments := by decide
  refine (memory_pathInit memory (by omega)).1 .overrun ?_
  rw [hseg, copyFault, if_neg (by omega), if_pos (by omega)]

theorem noNul_longName : 0 ∉ List.replicate 600 (97 : UInt8) := by
  rw [List.mem_replicate]
  decide

def longName : CString := ⟨List.replicate 600 97, noNul_longName⟩

def blank : PathMemory.Buffer :=
  ⟨.unix, false, false, 0, 0, ⟨List.replicate kMaxPathSegments 0, List.length_replicate⟩,
    ⟨List.replicate kMaxPathLength 0, List.length_replicate⟩⟩

theorem length_longName : longName.bytes.length = 600 := List.length_replicate

theorem isName_longName : IsName longName := by
  have hsep : isSeparator 97 = false := by decide
  have hne : ∀ bytes : List UInt8, bytes.length < 600 → longName.bytes ≠ bytes := by
    rintro bytes hbytes rfl
    rw [length_longName] at hbytes
    exact Nat.lt_irrefl _ hbytes
  refine ⟨hne [] (by decide), fun ch hch => ?_, hne [46] (by decide), hne [46, 46] (by decide)⟩
  rw [List.eq_of_mem_replicate hch]
  exact hsep

theorem pathInit_longName : PathMemory.pathInit blank longName .unix = .error .overrun ∧
    ¬PathSafe blank blank longName (.lit "b") .unix .unix := by
  have hlong : kMaxPathLength < longName.bytes.length := by
    rw [length_longName]
    decide
  have hlength : longName.bytes.length < 2 ^ 16 := by
    rw [length_longName]
    decide
  have hoverrun := pathInit_long_name isName_longName hlong hlength blank .unix
  exact ⟨hoverrun, fun h => h.init.1 hoverrun⟩

end Tundra
